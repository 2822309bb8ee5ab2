import Transclusion.Debounce

namespace Transclusion

-- An event as it is recorded.
structure Note where
  kind : FileEvent.Kind
  place : Location
  deriving DecidableEq

-- An event that is skipped, or that happened nowhere, is not recorded.
def Debounce.note? (d : Debounce) (w : Workspace) (e : FileEvent) : Option Note :=
  if e.isDirectory || d.skips e.path.name then none else (w.locate e.path).toOption.map (⟨e.kind, ·⟩)

namespace Batch

-- The batch names the places of the notes, each as one where something is, or one where nothing is.
structure Gathers (b : Batch) (ns : List Note) : Prop where
  modified : ∀ l, l ∈ b.modified ↔ ∃ n ∈ ns, n.place = l ∧ (n.kind = .created ∨ n.kind = .modified)
  deleted : ∀ l, l ∈ b.deleted ↔ ∃ n ∈ ns, n.place = l ∧ (n.kind = .deleted ∨ n.kind = .moved)

-- What comes of notes: a batch with all of them, if there are any.
inductive Delivers : Option Batch → List Note → Prop
  | nothing : Delivers none []
  | batch {b ns} (hn : ns ≠ []) (hg : Gathers b ns) : Delivers (some b) ns

variable {b : Batch} {ns : List Note} {l : Location}

theorem mem_locations_iff : l ∈ b.locations ↔ l ∈ b.modified ∨ l ∈ b.deleted := by
  simp only [locations, List.mem_append, List.mem_filter, List.contains_eq_mem, Bool.not_eq_true',
    decide_eq_false_iff_not]
  by_cases hm : l ∈ b.modified <;> simp [hm]

theorem isEmpty_iff : b.isEmpty ↔ b.modified = [] ∧ b.deleted = [] := by
  simp [isEmpty]

theorem gathers_nil : ({} : Batch).Gathers [] where
  modified := by simp
  deleted := by simp

theorem Gathers.add (h : b.Gathers ns) (n : Note) : (b.add n.kind n.place).Gathers (ns ++ [n]) := by
  obtain ⟨kind, place⟩ := n
  constructor <;> intro l <;>
    simp only [List.mem_append, List.mem_singleton, or_and_right, exists_or, exists_eq_left]
  case modified =>
    have hm := h.modified l
    cases kind <;> simp [Batch.add, List.mem_insert_iff, hm, or_comm, eq_comm]
  case deleted =>
    have hd := h.deleted l
    cases kind <;> simp [Batch.add, List.mem_insert_iff, hd, or_comm, eq_comm]

theorem Gathers.mem_locations_iff (h : b.Gathers ns) : l ∈ b.locations ↔ ∃ n ∈ ns, n.place = l := by
  rw [Batch.mem_locations_iff, h.modified, h.deleted]
  constructor
  case mp =>
    rintro (⟨n, hn, hl, _⟩ | ⟨n, hn, hl, _⟩)
    · exact ⟨n, hn, hl⟩
    · exact ⟨n, hn, hl⟩
  case mpr =>
    rintro ⟨n, hn, hl⟩
    cases hk : n.kind
    case created | modified => exact .inl ⟨n, hn, hl, by simp [hk]⟩
    case deleted | moved    => exact .inr ⟨n, hn, hl, by simp [hk]⟩

-- A batch is empty only if nothing was recorded.
theorem Gathers.isEmpty_iff (h : b.Gathers ns) : b.isEmpty ↔ ns = [] := by
  have hl : b.isEmpty ↔ ∀ l, l ∉ b.locations := by
    simp only [Batch.isEmpty_iff, Batch.mem_locations_iff, not_or, List.eq_nil_iff_forall_not_mem]
    exact forall_and.symm
  rw [hl, List.eq_nil_iff_forall_not_mem]
  constructor
  case mp  => exact fun hn n hm => hn n.place (h.mem_locations_iff.mpr ⟨n, hm, rfl⟩)
  case mpr =>
    intro hn l hm
    have ⟨n, hm, _⟩ := h.mem_locations_iff.mp hm
    exact hn n hm

end Batch

namespace Debounce

variable {d d' : Debounce} {w : Workspace} {now : Rat} {e : FileEvent} {ns : List Note}

theorem record_cases (d : Debounce) (w : Workspace) (now : Rat) (e : FileEvent) :
    (d.note? w e = none ∧ (d.record w now e = .ok d ∨ ∃ f, d.record w now e = .error f)) ∨
    ∃ n, d.note? w e = some n ∧
      d.record w now e = .ok { d with pending := d.pending.add n.kind n.place, lastEvent := now } := by
  rw [note?, record]
  split
  case isTrue  => exact .inl ⟨rfl, .inl rfl⟩
  case isFalse =>
    cases w.locate e.path
    case error f => exact .inl ⟨rfl, .inr ⟨f, rfl⟩⟩
    case ok l    => exact .inr ⟨⟨e.kind, l⟩, rfl, rfl⟩

theorem gathers_record (h : d.pending.Gathers ns) (hr : d.record w now e = .ok d') :
    d'.pending.Gathers (ns ++ (d.note? w e).toList) := by
  rcases record_cases d w now e with ⟨hn, ho | ⟨f, ho⟩⟩ | ⟨n, hn, ho⟩ <;> cases ho.symm.trans hr <;> rw [hn]
  · simpa using h
  · exact h.add n

theorem note?_of_record_error {f : Fault} (h : d.record w now e = .error f) : d.note? w e = none := by
  rcases record_cases d w now e with ⟨hn, _⟩ | ⟨n, _, ho⟩
  · exact hn
  · cases ho.symm.trans h

theorem suffix_record (h : d.record w now e = .ok d') : d'.suffix = d.suffix := by
  rcases record_cases d w now e with ⟨_, ho | ⟨f, ho⟩⟩ | ⟨n, _, ho⟩ <;> cases ho.symm.trans h <;> rfl

theorem suffix_flush (d : Debounce) : d.flush.2.suffix = d.suffix := by
  rw [flush]
  split <;> rfl

-- Nothing is held back after a flush.
theorem pending_flush (d : Debounce) : d.flush.2.pending = {} := by
  rw [flush]
  split
  case isTrue hp =>
    obtain ⟨hm, hd⟩ := Batch.isEmpty_iff.mp hp
    rw [show d.pending = ⟨d.pending.modified, d.pending.deleted⟩ from rfl, hm, hd]
  case isFalse => rfl

-- A batch takes all that is held back.
theorem flush_delivers (h : d.pending.Gathers ns) : Batch.Delivers d.flush.1 ns := by
  rw [flush]
  split
  case isTrue hp =>
    cases h.isEmpty_iff.mp hp
    exact .nothing
  case isFalse hp => exact .batch (mt h.isEmpty_iff.mpr hp) h

end Debounce

end Transclusion
