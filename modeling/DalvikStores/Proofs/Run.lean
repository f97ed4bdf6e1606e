import DalvikStores.Proofs.Effect

/-!
# Runs

A run executes one text after the other, each at an address and under a hierarchy of its own. A
text that fails leaves the state where it was, and the run goes on. What every step of an
operation preserves therefore holds after every run.
-/

namespace DalvikStores

/-- A text to execute, with its surroundings. -/
structure Call where
  hierarchy : Hierarchy
  address : Address
  text : String

namespace State

def call (s : State) (c : Call) : State :=
  match Execution.ofText c.hierarchy c.address c.text s with
  | .ok _ t => t
  | .error _ t => t

def run (s : State) : List Call → State
  | [] => s
  | c :: calls => (s.call c).run calls

@[simp] theorem run_nil (s : State) : s.run [] = s := rfl

@[simp] theorem run_cons (s : State) (c : Call) (calls : List Call) :
    s.run (c :: calls) = (s.call c).run calls := rfl

theorem run_take_succ (s : State) (c : Call) (calls : List Call) (n : ℕ) :
    s.run ((c :: calls).take (n + 1)) = (s.call c).run (calls.take n) := rfl

theorem call_eq_of_ofText {s t : State} {c : Call} {successors : List Address}
    (ht : Execution.ofText c.hierarchy c.address c.text s = .ok successors t) : s.call c = t := by
  simp only [call, ht]

theorem call_eq_self_or_step (s : State) (c : Call) :
    s.call c = s ∨ ∃ op, Aput.ofText c.address c.text = .ok op ∧
      op.Step c.hierarchy s (s.call c) := by
  unfold call
  cases hr : Execution.ofText c.hierarchy c.address c.text s with
  | error e t => exact .inl (Execution.eq_of_ofText_eq_error hr)
  | ok successors t =>
    obtain ⟨op, ho, -, hs⟩ := (Execution.ofText_eq_ok_iff successors).mp hr
    exact .inr ⟨op, ho, hs⟩

/-- What the steps under the hierarchies of a run preserve holds after it. -/
theorem run_preserves {P : State → Prop} (calls : List Call)
    (hstep : ∀ c ∈ calls, ∀ (op : Aput) (s t : State), op.Step c.hierarchy s t → P s → P t)
    {s : State} (hs : P s) : P (s.run calls) := by
  induction calls generalizing s with
  | nil =>
    rw [run_nil]
    exact hs
  | cons c calls ih =>
    rw [run_cons]
    have hcall : P (s.call c) := by
      rcases s.call_eq_self_or_step c with he | ⟨op, -, ht⟩
      · rw [he]; exact hs
      · exact hstep c List.mem_cons_self op s _ ht hs
    apply ih
    · intro c' hc'
      exact hstep c' (List.mem_cons_of_mem c hc')
    · exact hcall

/-- A run leads to no array that was out of reach before it. -/
theorem reaches_of_run {s : State} {ref : ArrayRef} (calls : List Call)
    (hr : (s.run calls).Reaches ref) : s.Reaches ref := by
  have hp : ∀ r, (s.run calls).Reaches r → s.Reaches r := by
    apply run_preserves (P := fun t => ∀ r, t.Reaches r → s.Reaches r) calls
    · intro c _ op t t' ht hrt r hr'
      exact hrt r (ht.reaches hr')
    · intro r hr'
      exact hr'
  exact hp ref hr

end State

end DalvikStores
