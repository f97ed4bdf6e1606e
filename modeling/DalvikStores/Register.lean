import DalvikStores.Reader

/-!
# Registers

Registers are numbered from 0 to 65535. They are written `v12` and read as `v12` or `r12`.
-/

namespace DalvikStores

structure Register where
  number : UInt16
  deriving DecidableEq, Repr

namespace Register

def index (r : Register) : Nat := r.number.toNat

def render (r : Register) : String := "v" ++ toString r.index

/-- The number has to fit its word, with however many digits it is written. -/
def ofDigits (ds : List Char) : Except ReadError Register :=
  if Numeral.value ds < UInt16.size then .ok ⟨UInt16.ofNat (Numeral.value ds)⟩
  else .error .numberTooLarge

def read : Reader Register := fun cs =>
  match cs with
  | [] => .error (.unexpected [] .oneOf)
  | c :: cs' =>
    if c = 'v' ∨ c = 'r' then do
      let (ds, rest) ← Reader.digits cs'
      let r ← ofDigits ds
      return (r, rest)
    else .error (.unexpected (c :: cs') .oneOf)

theorem length_lt_of_read {cs rest : List Char} {r : Register} (h : read cs = .ok (r, rest)) :
    rest.length < cs.length := by
  unfold read at h
  split at h
  · cases h
  · rename_i c cs'
    split at h
    · cases hd : Reader.digits cs' with
      | error e => simp [hd, bind, Except.bind] at h
      | ok p =>
        cases ho : ofDigits p.1 with
        | error e => simp [hd, ho, bind, Except.bind] at h
        | ok r' =>
          simp only [hd, ho, bind, Except.bind, pure, Except.pure, Except.ok.injEq,
            Prod.mk.injEq] at h
          obtain ⟨-, rfl⟩ := h
          simp only [Reader.digits, Reader.someWhile] at hd
          split at hd
          · cases hd
          · cases hd
            exact Nat.lt_succ_of_le (List.dropWhile_sublist _).length_le
    · cases h

end Register

end DalvikStores
