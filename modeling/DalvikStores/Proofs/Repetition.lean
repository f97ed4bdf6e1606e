import DalvikStores.Proofs.Blurring
import DalvikStores.Proofs.Run

/-!
# Executing an operation again

An operation that has succeeded succeeds again in the state that it led to, and then changes
nothing. A taint leaves an unknown value in the array register, which the other operands may share,
and a store into an unknown array leaves everything alone. A write leaves the registers alone, so
that it is followed by the same write, to the same slot. A text that is executed many times in a
row has the effect of its first execution, also if it fails.
-/

namespace DalvikStores

namespace Aput

variable {op : Aput} {h : Hierarchy} {s t : State} {successors : List Address}

theorem Step.again (hs : op.Step h s t) : op.Step h t t := by
  have hsize := hs.size_eq
  cases hs with
  | leave hr => exact .leave hr
  | @taint v i ref hr hu =>
    -- The value and the index may be in the tainted register, but they are still in the frame.
    obtain ⟨v', a', i', hr'⟩ := hr.exists_of_size_eq hsize
    have ha : some a' = some (.ofUnknown ref.type) :=
      hr'.array.symm.trans (List.getElem?_set_self (Frame.lt_size_of_getElem? hr.array))
    cases ha
    exact .leave hr'
  | @write v i w ref j c hr hv hw hj hl hu =>
    have hstep : op.Step h { s with heap := s.heap.write ref j c }
        { s with heap := (s.heap.write ref j c).write ref j c } := .write hr hv hw hj hl hu
    rwa [Heap.write_write] at hstep

/-- A successful operation can be executed again, with the same successors, and leaves the state
as the first execution did. -/
theorem execute_again (op : Aput) (h : Hierarchy) (s t : State) (successors : List Address)
    (he : op.execute h s = .ok successors t) : op.execute h t = .ok successors t := by
  obtain ⟨rfl, hs⟩ := (execute_eq_ok_iff successors).mp he
  exact execute_of_step hs.again

/-- An array is tainted by a store of itself at an unknown index, and written into itself at a
known one; each of these can follow itself. -/
theorem execute_again_shared :
    let f : Frame := ⟨[.array serializableRows, .unknown "I", .int 2]⟩
    let p : Aput := ⟨⟨0⟩, "aput-object", .object, ⟨2⟩, ⟨0⟩, ⟨0⟩, ⟨1⟩⟩
    let q : Aput := ⟨⟨0⟩, "aput-object", .object, ⟨2⟩, ⟨0⟩, ⟨0⟩, ⟨2⟩⟩
    let tainted : State := ⟨⟨[.unknown "[[Ljava/io/Serializable;", .unknown "I", .int 2]⟩, .empty⟩
    let written : State :=
      ⟨f, Heap.empty.write serializableRows 2 (.array rfl serializableRows)⟩
    (p.execute .empty ⟨f, .empty⟩ = .ok [⟨2⟩] tainted ∧
      p.execute .empty tainted = .ok [⟨2⟩] tainted) ∧
    q.execute .empty ⟨f, .empty⟩ = .ok [⟨2⟩] written ∧
      q.execute .empty written = .ok [⟨2⟩] written := by
  intro f p q tainted written
  have hp : p.execute .empty ⟨f, .empty⟩ = .ok [⟨2⟩] tainted := rfl
  have hq : q.execute .empty ⟨f, .empty⟩ = .ok [⟨2⟩] written := by
    apply execute_of_step
    exact .write ⟨rfl, rfl, rfl⟩ rfl (.object rfl) rfl (by decide)
      (takes_serializableRows rfl (.array serializableRows))
  exact ⟨⟨hp, execute_again p .empty _ tainted _ hp⟩, hq, execute_again q .empty _ written _ hq⟩

end Aput

namespace State

theorem call_call (s : State) (c : Call) : (s.call c).call c = s.call c := by
  rcases s.call_eq_self_or_step c with he | ⟨op, ho, hs⟩
  · rw [he, he]
  · have ht : Execution.ofText c.hierarchy c.address c.text (s.call c) =
        .ok [op.successor] (s.call c) :=
      (Execution.ofText_eq_ok_iff _).mpr ⟨op, ho, rfl, hs.again⟩
    exact call_eq_of_ofText ht

theorem run_replicate_succ (s : State) (c : Call) (n : ℕ) :
    s.run (List.replicate (n + 1) c) = s.call c := by
  induction n generalizing s with
  | zero => rfl
  | succ n ih =>
    rw [List.replicate_succ, run_cons, ih, call_call]

end State

end DalvikStores
