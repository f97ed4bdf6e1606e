/-!
# Command line tokens

An argument that starts with a dash is a group of one-letter options, and one that starts with
two dashes is a single option with a long name. A flag stands alone. A setting takes a value: the
rest of its argument, with or without an equals sign, or else the next argument, which then must
not look like an option itself. Nothing else is taken, and after the first token that is refused
nothing more matters.
-/

namespace DalvikStores.CommandLine

inductive Flag
  | debug
  | verbose
  | ecslog
  deriving DecidableEq, Repr

inductive Setting
  | instruction
  | address
  | register
  | entry
  deriving DecidableEq, Repr

inductive Token
  | flag (f : Flag)
  | setting (s : Setting) (value : String)
  | version
  | refused
  deriving DecidableEq, Repr

def Flag.ofLetter : Char → Option Flag
  | 'd' => some debug
  | 'v' => some verbose
  | 'e' => some ecslog
  | _ => none

def Flag.ofName : String → Option Flag
  | "debug" => some debug
  | "verbose" => some verbose
  | "ecslog" => some ecslog
  | _ => none

def Setting.ofLetter : Char → Option Setting
  | 'I' => some instruction
  | 'a' => some address
  | 'r' => some register
  | 'c' => some entry
  | _ => none

def Setting.ofName : String → Option Setting
  | "instr" => some instruction
  | "addr" => some address
  | "reg" => some register
  | "class" => some entry
  | _ => none

/-- The tokens of a group of letters, and the setting at its end that still needs a value. -/
def ofLetters : List Char → List Token × Option Setting
  | [] => ([], none)
  | c :: cs =>
    if c = 'V' then ([.version], none)
    else
      match Flag.ofLetter c, Setting.ofLetter c with
      | some f, _ =>
        let (tokens, pending) := ofLetters cs
        (.flag f :: tokens, pending)
      | none, some s =>
        match cs with
        | [] => ([], some s)
        | '=' :: value => ([.setting s (String.ofList value)], none)
        | value => ([.setting s (String.ofList value)], none)
      | none, none => ([.refused], none)

/-- A long option, with the value behind its equals sign if it has one. -/
def ofLongName (name : String) (value : Option String) : List Token × Option Setting :=
  match Flag.ofName name, Setting.ofName name, value with
  | some f, _, none => ([.flag f], none)
  | none, some s, none => ([], some s)
  | none, some s, some v => ([.setting s v], none)
  | none, none, none => ([if name = "version" then .version else .refused], none)
  | _, _, _ => ([.refused], none)

def ofArgument (arg : String) : List Token × Option Setting :=
  match arg.toList with
  | '-' :: '-' :: cs =>
    let name := String.ofList (cs.takeWhile (· != '='))
    match cs.dropWhile (· != '=') with
    | [] => ofLongName name none
    | _ :: value => ofLongName name (some (String.ofList value))
  | '-' :: c :: cs => ofLetters (c :: cs)
  | _ => ([.refused], none)

def looksLikeOption (arg : String) : Bool := arg.toList.head? == some '-' && arg != "-"

/-- Two dashes alone end the options, and no argument may follow them. -/
def tokens : List String → List Token
  | [] => []
  | [arg] =>
    if arg = "--" then []
    else
      match ofArgument arg with
      | (ts, none) => ts
      | (ts, some _) => ts ++ [.refused]
  | arg :: value :: rest =>
    if arg = "--" then [.refused]
    else
      match ofArgument arg with
      | (ts, none) => ts ++ tokens (value :: rest)
      | (ts, some s) =>
        if looksLikeOption value then ts ++ [.refused]
        else ts ++ .setting s value :: tokens rest

end DalvikStores.CommandLine
