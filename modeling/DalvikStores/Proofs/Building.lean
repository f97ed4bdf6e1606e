import DalvikStores.Proofs.Sharing
import DalvikStores.Proofs.Taint

/-!
# What a build leaves behind

Once all entries have been taken, their registers are told apart, and a frame is made of their
values when no register is missing. A frame cannot then have more registers than there are
numbers, so that all of them are listed. Together with what the registers share this says when a
build succeeds, and what the state shows that it leaves.
-/

namespace DalvikStores

namespace Assembly

variable {a : Assembly} {r : Register} {v : Value} {i : ℕ}

theorem exists_mem_of_registerValue (hv : a.registerValue i = .ok v) :
    ∃ r, r.index = i ∧ (r, v) ∈ a.assigned := by
  unfold registerValue at hv
  split at hv
  · rename_i r u hf
    cases hv
    exact ⟨r, eq_of_beq (List.find?_some hf :), List.mem_of_find?_eq_some hf⟩
  · cases hv

theorem registerValue_eq_ok_iff (hnd : (a.assigned.map Prod.fst).Nodup) :
    a.registerValue i = .ok v ↔ ∃ r, r.index = i ∧ (r, v) ∈ a.assigned := by
  constructor
  · exact exists_mem_of_registerValue
  · rintro ⟨r, rfl, hv⟩
    cases hu : a.registerValue r.index with
    | ok u =>
      obtain ⟨r', hr, hmem⟩ := exists_mem_of_registerValue hu
      obtain rfl := Register.eq_of_index_eq hr
      cases List.inj_on_of_nodup_map hnd hmem hv rfl
      rfl
    | error e =>
      unfold registerValue at hu
      split at hu
      · cases hu
      · rename_i hf
        exact absurd (beq_self_eq_true _) (List.find?_eq_none.mp hf (r, v) hv)

theorem registerValue_eq_getElem {f : Frame} (hf : a.frame = .ok f) (hi : i < f.registers.length) :
    a.registerValue i = .ok f.registers[i] := by
  have hvalues := frame_eq_ok_iff.mp hf
  have hget := hvalues.get (hvalues.length_eq ▸ hi) hi
  rwa [List.get_eq_getElem, List.getElem_range] at hget

theorem length_of_frame {f : Frame} (hf : a.frame = .ok f) :
    f.registers.length = a.assigned.length := by
  rw [← (frame_eq_ok_iff.mp hf).length_eq, List.length_range]

/-- There is a frame exactly when the registers are all those up to the highest one. -/
theorem exists_frame_iff (hnd : (a.assigned.map Prod.fst).Nodup) :
    (∃ f, a.frame = .ok f) ↔
      (a.assigned.map fun p => p.1.index).Perm (List.range a.assigned.length) := by
  constructor
  · rintro ⟨f, hf⟩
    have hsub : List.range a.assigned.length ⊆ a.assigned.map fun p => p.1.index := by
      intro i hi
      rw [List.mem_range, ← length_of_frame hf] at hi
      obtain ⟨r, rfl, hmem⟩ := exists_mem_of_registerValue (registerValue_eq_getElem hf hi)
      exact List.mem_map.mpr ⟨_, hmem, rfl⟩
    -- There are no more registers than numbers to be covered, so that none is left over.
    apply List.Perm.symm
    apply (List.nodup_range.subperm hsub).perm_of_length_le
    rw [List.length_map, List.length_range]
  · intro hp
    have hv : ∀ i ∈ List.range a.assigned.length, ∃ v, a.registerValue i = .ok v := by
      intro i hi
      obtain ⟨⟨r, v⟩, hmem, rfl⟩ := List.mem_map.mp (hp.mem_iff.mpr hi)
      exact ⟨v, (registerValue_eq_ok_iff hnd).mpr ⟨r, rfl, hmem⟩⟩
    have : Nonempty Value := ⟨.null⟩
    choose! value hvalue using hv
    refine ⟨⟨(List.range a.assigned.length).map value⟩, frame_eq_ok_iff.mpr ?_⟩
    exact List.forall₂_map_right_iff.mpr (List.forall₂_same.mpr hvalue)

theorem read_eq_ok_iff {f : Frame} (hnd : (a.assigned.map Prod.fst).Nodup)
    (hf : a.frame = .ok f) : f.read r = .ok v ↔ (r, v) ∈ a.assigned := by
  rw [Frame.read_eq_ok_iff]
  constructor
  · intro hv
    obtain ⟨hi, rfl⟩ := List.getElem?_eq_some_iff.mp hv
    obtain ⟨r', hr, hmem⟩ := exists_mem_of_registerValue (registerValue_eq_getElem hf hi)
    exact Register.eq_of_index_eq hr ▸ hmem
  · intro hmem
    have hperm := (exists_frame_iff hnd).mp ⟨f, hf⟩
    have hi : r.index < f.registers.length := by
      rw [length_of_frame hf, ← List.mem_range]
      exact hperm.mem_iff.mp (List.mem_map_of_mem hmem)
    have hv := (registerValue_eq_ok_iff hnd).mpr ⟨r, rfl, hmem⟩
    rw [registerValue_eq_getElem hf hi, Except.ok.injEq] at hv
    rw [List.getElem?_eq_getElem hi, hv]

end Assembly

namespace Frame

theorem map_entries {f : Frame} (hsize : f.size ≤ UInt16.size) :
    f.entries.map (fun p => p.1.index) = List.range f.size ∧
      f.entries.map Prod.snd = f.registers := by
  have htake : f.registers.take UInt16.size = f.registers := List.take_of_length_le hsize
  constructor
  · have hindex : ∀ p ∈ f.registers.zipIdx, (Register.mk (UInt16.ofNat p.2)).index = p.2 := by
      intro p hp
      apply UInt16.toNat_ofNat_of_lt'
      exact Nat.lt_of_lt_of_le (List.snd_lt_of_mem_zipIdx hp) hsize
    rw [entries, htake, List.map_map, List.range_eq_range', size, ← List.zipIdx_map_snd]
    exact List.map_congr_left hindex
  · rw [entries, htake, List.map_map]
    exact List.zipIdx_map_fst 0 f.registers

end Frame

theorem Assignment.FillsFrame.length_le {ps : List (Register × Literal)} (hp : FillsFrame ps) :
    ps.length ≤ UInt16.size := by
  rcases Nat.eq_zero_or_pos ps.length with hz | hz
  · exact hz ▸ Nat.zero_le _
  · have hlast : ps.length - 1 ∈ List.range ps.length :=
      List.mem_range.mpr (Nat.sub_one_lt_of_lt hz)
    obtain ⟨p, -, he⟩ := List.mem_map.mp (hp.perm.mem_iff.mpr hlast)
    have hlt : p.1.index < UInt16.size := p.1.number.toNat_lt
    omega

/-- What a state shows that is built from entries on top of a heap: each register has what its
literal stands for, registers share an array or an object exactly when they lead to the same
literal, and all registers are listed in their order. -/
structure State.Realizes (s : State) (heap : Heap) (ps : List (Register × Literal)) : Prop where
  size_eq : s.frame.size = ps.length
  exists_value {r : Register} {l : Literal} (hl : (r, l) ∈ ps) : ∃ v, s.frame.read r = .ok v ∧
    l.Denotes (fun r v => s.frame.read r = .ok v) heap s.heap v
  shares_iff (r r' : Register) :
    (∃ v i, v.HasId i ∧ s.frame.read r = .ok v ∧ s.frame.read r' = .ok v) ↔
      ∃ o, Assignment.LeadsTo ps r o ∧ Assignment.LeadsTo ps r' o
  indexes_eq : s.frame.entries.map (fun p => p.1.index) = List.range ps.length
  values_eq : s.frame.entries.map Prod.snd = s.frame.registers

namespace Assembly.Assembles

variable {heap : Heap} {ps : List (Register × Literal)} {a : Assembly} {s : State}

theorem length_eq (ha : Assembles heap ps a) : a.assigned.length = ps.length := by
  have he := congrArg List.length ha.map_fst_eq
  rwa [List.length_map, List.length_map] at he

/-- What is left to check once all entries have been taken is that no register is missing. -/
theorem exists_frame_iff_fillsFrame (ha : Assembles heap ps a) :
    (∃ f, a.frame = .ok f) ↔ Assignment.FillsFrame ps := by
  have hindex : (a.assigned.map fun p => p.1.index) = ps.map fun p => p.1.index := by
    have he := congrArg (List.map Register.index) ha.map_fst_eq
    rwa [List.map_map, List.map_map] at he
  rw [exists_frame_iff ha.nodup, hindex, ha.length_eq]
  exact ⟨fun hp => ⟨ha.orderly, hp⟩, fun hp => hp.perm⟩

theorem realizes (ha : Assembles heap ps a) (hf : a.frame = .ok s.frame) (hs : s.heap = a.heap) :
    s.Realizes heap ps := by
  have hsize : s.frame.size = ps.length := (length_of_frame hf).trans ha.length_eq
  have hfills := ha.exists_frame_iff_fillsFrame.mp ⟨_, hf⟩
  obtain ⟨hindexes, hvalues⟩ := Frame.map_entries (hsize ▸ hfills.length_le)
  refine ⟨hsize, ?_, ?_, hsize ▸ hindexes, hvalues⟩
  · intro r l hl
    obtain ⟨v, hv⟩ := ha.exists_value hl
    simp only [read_eq_ok_iff ha.nodup hf, hs]
    exact ⟨v, hv, ha.denotes hl hv⟩
  · intro r r'
    simp only [read_eq_ok_iff ha.nodup hf]
    exact ha.shares_iff

end Assembly.Assembles

namespace State

variable {heap : Heap} {texts : List String} {ps : List (Register × Literal)} {s : State}

theorem exists_realizes_of_build (hs : build heap texts = .ok s) :
    ∃ ps, List.Forall₂ (fun text p => Assignment.parse text = .ok p) texts ps ∧
      Assignment.FillsFrame ps ∧ s.Realizes heap ps := by
  obtain ⟨a, ha, hf, he⟩ := build_eq_ok_iff.mp hs
  obtain ⟨ps, hps, ha⟩ := Assembly.addAll_eq_ok_iff.mp ha
  exact ⟨ps, hps, ha.exists_frame_iff_fillsFrame.mp ⟨_, hf⟩, ha.realizes hf he⟩

theorem exists_build_of_fillsFrame
    (hps : List.Forall₂ (fun text p => Assignment.parse text = .ok p) texts ps)
    (hf : Assignment.FillsFrame ps) (heap : Heap) : ∃ s, build heap texts = .ok s := by
  have hspells : ∀ p ∈ ps, ∃ cs, Literal.Spells cs p.2 :=
    fun _ hp => Assignment.exists_spells_of_forall₂ hps hp
  obtain ⟨a, ha⟩ := Assembly.exists_assembles hf.orderly hspells hf.nodup heap
  obtain ⟨f, hframe⟩ := ha.exists_frame_iff_fillsFrame.mpr hf
  have hadd := Assembly.addAll_eq_ok_iff.mpr ⟨ps, hps, ha⟩
  exact ⟨⟨f, a.heap⟩, build_eq_ok_iff.mpr ⟨a, hadd, hframe, rfl⟩⟩

/-- A build succeeds exactly when its entries can be taken in their order and make up a frame, and
registers then share what their literals say. -/
theorem build_iff_and_realizes (heap : Heap) (texts : List String) :
    ((∃ s, build heap texts = .ok s) ↔
      ∃ ps, List.Forall₂ (fun text p => Assignment.parse text = .ok p) texts ps ∧
        Assignment.FillsFrame ps) ∧
      ∀ s, build heap texts = .ok s →
        ∃ ps, List.Forall₂ (fun text p => Assignment.parse text = .ok p) texts ps ∧
          Assignment.FillsFrame ps ∧ s.Realizes heap ps := by
  refine ⟨⟨?_, ?_⟩, fun s hs => exists_realizes_of_build hs⟩
  · rintro ⟨s, hs⟩
    obtain ⟨ps, hps, hf, -⟩ := exists_realizes_of_build hs
    exact ⟨ps, hps, hf⟩
  · rintro ⟨ps, hps, hf⟩
    exact exists_build_of_fillsFrame hps hf heap

/-- The first register shares the array of the second one, which is not that of the third. Both
arrays show zeros of their element types. -/
theorem build_realizes_shared :
    let texts := ["v1=array:[I:2", "v0=v1", "v2=array:[Z:1"]
    let pair : ArrayRef := Aput.intPair
    let other : ArrayRef := ⟨1, .array 1 .boolean, .boolean, 1, rfl, by decide, by decide⟩
    ∃ s ps, build .empty texts = .ok s ∧
      s.frame = ⟨[.array pair, .array pair, .array other]⟩ ∧
      s.heap.contents pair = [.int 0, .int 0] ∧ s.heap.contents other = [.boolean false] ∧
      List.Forall₂ (fun text p => Assignment.parse text = .ok p) texts ps ∧
      (∃ o, Assignment.LeadsTo ps ⟨0⟩ o ∧ Assignment.LeadsTo ps ⟨1⟩ o) ∧
      ¬ ∃ o, Assignment.LeadsTo ps ⟨1⟩ o ∧ Assignment.LeadsTo ps ⟨2⟩ o := by
  intro texts pair other
  let s : State := ⟨⟨[.array pair, .array pair, .array other]⟩,
    (Heap.empty.enter pair).enter other⟩
  have hs : build .empty texts = .ok s := rfl
  obtain ⟨ps, hps, -, hr⟩ := (build_iff_and_realizes .empty texts).2 s hs
  refine ⟨s, ps, hs, rfl, rfl, rfl, hps,
    (hr.shares_iff _ _).mp ⟨_, _, .array pair, rfl, rfl⟩, ?_⟩
  rw [← hr.shares_iff]
  rintro ⟨v, i, -, hv, hv'⟩
  have he : Value.array pair = .array other := Except.ok.inj (hv.trans hv'.symm)
  exact Nat.zero_ne_one (congrArg ArrayRef.id (Value.array.inj he))

end State

end DalvikStores
