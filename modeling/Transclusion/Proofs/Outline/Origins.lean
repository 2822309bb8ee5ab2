import Transclusion.Proofs.Outline.Subtrees

namespace Transclusion

open Text

variable {es : List Entry} {l : Text} {m : Mode} {d : Drawer} {s : Section}

def Drawer.IsRead (d : Drawer) : Prop :=
  ∀ p ∈ d.properties, ∃ l, property? l = some p

def Entry.IsRead : Entry → Prop
  | heading h => ∃ l, Headline.ofLine? l = some h
  | drawer d => d.IsRead
  | keyword _ | line _ => True

-- Properties that wait for the end of their drawer have been read already.
def Mode.HasRead : Mode → Prop
  | drawer ps _ => Drawer.IsRead ⟨ps⟩
  | plain | block _ => True

structure Section.IsRead (s : Section) : Prop where
  headline : ∃ l, Headline.ofLine? l = some s.headline
  drawers  : ∀ c ∈ s.content, ∀ d, .drawer d ∈ c → d.IsRead

section Lines

theorem Entry.isRead_of_mem_lines {ls : List Text} : ∀ e ∈ ls.map line, e.IsRead :=
  List.forall_mem_map.mpr fun _ _ => trivial

namespace Mode

theorem isRead_readPlain (l : Text) : (readPlain l).1.HasRead ∧ ∀ e ∈ (readPlain l).2, e.IsRead := by
  rw [readPlain_eq]
  cases hl : Construct.ofLine l
  case heading h =>
    exact ⟨trivial, List.forall_mem_singleton.mpr ⟨_, Construct.ofLine_eq_heading_iff.mp hl⟩⟩
  case drawer => exact ⟨List.forall_mem_nil _, List.forall_mem_nil _⟩
  all_goals exact ⟨trivial, List.forall_mem_singleton.mpr trivial⟩

theorem isRead_read (hm : m.HasRead) (l : Text) : (m.read l).1.HasRead ∧ ∀ e ∈ (m.read l).2, e.IsRead := by
  cases m
  case plain => exact isRead_readPlain l
  case block name =>
    rw [read]
    refine ⟨?_, List.forall_mem_singleton.mpr trivial⟩
    split <;> trivial
  case drawer ps ls =>
    rw [read]
    by_cases hc : Drawer.closes (bare l)
    case pos =>
      rw [if_pos hc]
      exact ⟨trivial, List.forall_mem_singleton.mpr hm⟩
    case neg =>
      rw [if_neg hc]
      cases hp : Drawer.property? (bare l)
      case some p =>
        exact ⟨List.forall_mem_append.mpr ⟨hm, List.forall_mem_singleton.mpr ⟨_, hp⟩⟩, List.forall_mem_nil _⟩
      case none =>
        obtain ⟨hn, hes⟩ := isRead_readPlain l
        exact ⟨hn, List.forall_mem_append.mpr ⟨Entry.isRead_of_mem_lines, hes⟩⟩

theorem isRead_entries (hm : m.HasRead) (ls : List Text) : ∀ e ∈ m.entries ls, e.IsRead := by
  induction ls generalizing m
  case nil =>
    cases m
    case plain | block => exact List.forall_mem_nil _
    case drawer        => exact Entry.isRead_of_mem_lines
  case cons l ls hi =>
    obtain ⟨hn, hes⟩ := isRead_read hm l
    rw [entries_cons]
    exact List.forall_mem_append.mpr ⟨hes, hi hn⟩

end Mode

end Lines

section Gathering

theorem drawer_mem_push_iff {e : Entry} {c : Content} :
    .drawer d ∈ c.push e ↔ e = .drawer d ∨ .drawer d ∈ c := by
  cases e
  case heading   => simp [Content.push]
  case keyword k => simp [Content.push]
  case drawer d' => simp [Content.push, eq_comm]
  case line l =>
    rw [Content.push.eq_def]
    grind

theorem gather_cons {e : Entry} (h : ∀ x, e ≠ .heading x) (es : List Entry) :
    gather (e :: es) = ((gather es).1.push e, (gather es).2) := by
  cases e
  case heading x => exact absurd rfl (h x)
  all_goals rfl

-- Gathering loses no drawer and makes up none.
theorem drawer_mem_gather_iff (es : List Entry) :
    .drawer d ∈ (gather es).1 ∨ (∃ x ∈ (gather es).2, .drawer d ∈ x.2) ↔ .drawer d ∈ es := by
  induction es
  case nil => simp [gather]
  case cons e es hi =>
    by_cases hh : ∃ h, e = .heading h
    case pos =>
      obtain ⟨h, rfl⟩ := hh
      simpa [gather] using hi
    case neg =>
      rw [gather_cons (not_exists.mp hh), drawer_mem_push_iff, or_assoc, hi, List.mem_cons, eq_comm]

theorem Content.exists_mem_body?_iff {c : Content} {e : Element} : (∃ b ∈ c.body?, e ∈ b) ↔ e ∈ c := by
  cases c <;> simp [body?]

-- The drawer stands directly in the document or directly in one of its sections.
def Document.HasDrawer (x : Document) (d : Drawer) : Prop :=
  (∃ c ∈ x.content, .drawer d ∈ c) ∨ ∃ s ∈ x.sections.preorder, ∃ c ∈ s.content, .drawer d ∈ c

theorem Document.hasDrawer_ofEntries_iff : (ofEntries es).HasDrawer d ↔ .drawer d ∈ es := by
  have hs : (∃ s ∈ (ofEntries es).sections.preorder, ∃ c ∈ s.content, .drawer d ∈ c) ↔
      ∃ x ∈ (ofEntries es).sections.headings, ∃ c ∈ x.2, .drawer d ∈ c := by
    simp only [Forest.headings, List.mem_map, exists_exists_and_eq_and]
  rw [HasDrawer, hs, Document.ofEntries_of_gather rfl, Forest.headings_ofHeadings, ←drawer_mem_gather_iff]
  simp only [List.mem_map, exists_exists_and_eq_and, Content.exists_mem_body?_iff]

theorem Section.isRead_of_mem {t : Text} (h : s ∈ (Document.ofText t).sections.preorder) : s.IsRead := by
  have hr : ∀ e ∈ Entry.ofLines (completed (lines t)), e.IsRead :=
    Mode.isRead_entries (m := .plain) trivial _
  constructor
  case headline =>
    have hm := List.mem_map_of_mem (f := (·.headline)) h
    rw [Document.ofText, Document.headlines_ofEntries] at hm
    obtain ⟨e, he, hh⟩ := List.mem_filterMap.mp hm
    cases e <;> cases hh
    exact hr _ he
  case drawers =>
    exact fun c hc d hd => hr _ (Document.hasDrawer_ofEntries_iff.mp (.inr ⟨s, h, c, hc, hd⟩))

end Gathering

end Transclusion
