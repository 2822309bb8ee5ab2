import Transclusion.Proofs.Locate.Search
import Transclusion.Proofs.Outline.Origins
import Transclusion.Proofs.Outline.OutsideBlocks

namespace Transclusion

open Text

variable {l s : Text} {p : Text × Text} {d : Drawer} {ls ps : List Text} {properties : List (Text × Text)}

-- A drawer of the document has the property, whose name may be written in any case.
def Document.HasProperty (x : Document) (name value : Text) : Prop :=
  ∃ d key, x.HasDrawer d ∧ (key, value) ∈ d.properties ∧ upper key = name

section Lines

-- Outside of blocks and drawers a property is no more than text.
theorem Construct.ofLine_of_colon (h : trimStart (bare l) = ':' :: s) (hd : Drawer.opens (bare l) = false) :
    ofLine l = text := by
  have hk : Keyword.ofLine? (bare l) = none := by
    rw [Keyword.ofLine?, h]
    rfl
  simp [ofLine, not_heading_of_colon h, not_block_of_colon h, hd, hk]

theorem Drawer.Lists.exists_line (h : Lists ls properties) (hp : p ∈ properties) :
    ∃ l ∈ ls, property? (bare l) = some p := by
  induction h
  case nil => cases hp
  case cons l q ls qs hl _ hi =>
    rcases List.mem_cons.mp hp with rfl | hp
    · exact ⟨l, List.mem_cons_self, hl.right⟩
    · obtain ⟨k, hk, hq⟩ := hi hp
      exact ⟨k, List.mem_cons_of_mem l hk, hq⟩

theorem Drawer.Lists.mem (h : Lists ls properties) (hl : l ∈ ls) (hp : property? (bare l) = some p) :
    p ∈ properties := by
  induction h
  case nil => cases hl
  case cons k q ls qs hk _ hi =>
    rcases List.mem_cons.mp hl with rfl | hl
    · cases hp.symm.trans hk.right
      exact List.mem_cons_self
    · exact List.mem_cons_of_mem q (hi hl)

theorem Entry.drawer_not_mem_lines (ls : List Text) : .drawer d ∉ ls.map line := by
  simp

namespace PrintsAs

theorem exists_line (h : PrintsAs ls ps) (hd : .drawer d ∈ Mode.plain.entries ls) (hp : p ∈ d.properties) :
    ∃ l ∈ ls, Drawer.property? (bare l) = some p := by
  induction h
  case nil => cases hd
  case heading hl _ hi | keyword hl _ hi | text hl _ hi =>
    simp only [Mode.entries_cons, Mode.read, Mode.readPlain_eq, hl, List.singleton_append, List.mem_cons,
      reduceCtorEq, false_or] at hd
    exact (hi hd).imp fun _ => .imp_left (List.mem_cons_of_mem _)
  case block hl hb he _ hi =>
    rw [Mode.entries_closedBlock hl hb he] at hd
    have hd := (List.mem_append.mp hd).resolve_left (Entry.drawer_not_mem_lines _)
    exact (hi hd).imp fun _ => .imp_left fun hk => List.mem_append_right _ (List.mem_cons_of_mem _ hk)
  case openBlock hl hb =>
    rw [Mode.entries_openBlock hl hb] at hd
    exact absurd hd (Entry.drawer_not_mem_lines _)
  case drawer hl hs he _ hi =>
    rw [Mode.entries_closedDrawer hl hs he, List.mem_cons] at hd
    rcases hd with hd | hd
    case inl =>
      cases hd
      exact (hs.exists_line hp).imp fun _ => .imp_left fun hk =>
        List.mem_append_left _ (List.mem_cons_of_mem _ hk)
    case inr =>
      exact (hi hd).imp fun _ => .imp_left fun hk => List.mem_append_right _ (List.mem_cons_of_mem _ hk)
  case looseDrawer hl hs hn _ hi =>
    rw [Mode.entries_looseDrawer hl hs hn] at hd
    have hd := (List.mem_append.mp hd).resolve_left (Entry.drawer_not_mem_lines _)
    exact (hi hd).imp fun _ => .imp_left (List.mem_append_right _)

-- The line stands outside of blocks and drawers, or in a block, or in a drawer, which may come to nothing.
theorem line_or_drawer (h : PrintsAs ls ps) (hl : l ∈ ls) (ht : Construct.ofLine l = .text)
    (hc : Drawer.closes (bare l) = false) (hp : Drawer.property? (bare l) = some p) :
    .line l ∈ Mode.plain.entries ls ∨ ∃ d, .drawer d ∈ Mode.plain.entries ls ∧ p ∈ d.properties := by
  induction h
  case nil => cases hl
  case heading hk _ hi | keyword hk _ hi =>
    simp only [Mode.entries_cons, Mode.read, Mode.readPlain_eq, hk, List.singleton_append, List.mem_cons,
      reduceCtorEq, false_or]
    rcases List.mem_cons.mp hl with rfl | hl
    · cases ht.symm.trans hk
    · exact hi hl
  case text hk _ hi =>
    simp only [Mode.entries_text hk, List.mem_cons, reduceCtorEq, false_or]
    rcases List.mem_cons.mp hl with rfl | hl
    · exact .inl (.inl rfl)
    · exact (hi hl).imp_left .inr
  case block k _ body e ls _ hk hb he _ hi =>
    have hl : l ∈ (k :: body ++ [e]) ++ ls := by simpa using hl
    simp only [Mode.entries_closedBlock hk hb he, List.mem_append, Entry.drawer_not_mem_lines, false_or]
    rcases List.mem_append.mp hl with hl | hl
    · exact .inl (.inl (List.mem_map_of_mem hl))
    · exact (hi hl).imp_left .inr
  case openBlock hk hb =>
    rw [Mode.entries_openBlock hk hb]
    exact .inl (List.mem_map_of_mem hl)
  case drawer hk hs he _ hi =>
    simp only [Mode.entries_closedDrawer hk hs he, List.mem_cons, reduceCtorEq, false_or]
    rcases List.mem_append.mp hl with hl | hl <;> rcases List.mem_cons.mp hl with rfl | hl
    · cases ht.symm.trans hk
    · exact .inr ⟨_, .inl rfl, hs.mem hl hp⟩
    · cases hc.symm.trans he
    · rcases hi hl with hi | ⟨d, hd, hm⟩
      · exact .inl hi
      · exact .inr ⟨d, .inr hd, hm⟩
  case looseDrawer hk hs hn _ hi =>
    simp only [Mode.entries_looseDrawer hk hs hn, List.mem_append, Entry.drawer_not_mem_lines, false_or]
    rcases List.mem_append.mp hl with hl | hl
    · exact .inl (.inl (List.mem_map_of_mem hl))
    · exact (hi hl).imp_left .inr

end PrintsAs

end Lines

namespace Document

variable {t : Text}

theorem exists_line_of_hasDrawer (h : (ofText t).HasDrawer d) (hp : p ∈ d.properties) :
    ∃ l ∈ lines t, Drawer.property? (bare l) = some p := by
  have ⟨_, hr⟩ := exists_printsAs (completed (lines t))
  obtain ⟨l, hl, hp⟩ := hr.exists_line (hasDrawer_ofEntries_iff.mp h) hp
  have hm := List.mem_map_of_mem (f := bare) hl
  rw [map_bare_completed] at hm
  obtain ⟨k, hk, he⟩ := List.mem_map.mp hm
  exact ⟨k, hk, he ▸ hp⟩

-- A line that could be a property is one, or is text with or without a drawer around it.
theorem line_or_hasDrawer (hl : l ∈ lines t) (hc : Drawer.closes (bare l) = false)
    (ho : Drawer.opens (bare l) = false) (hp : Drawer.property? (bare l) = some p) :
    (∃ k, bare k = bare l ∧ .line k ∈ Entry.ofLines (completed (lines t))) ∨
      ∃ d, (ofText t).HasDrawer d ∧ p ∈ d.properties := by
  have hm := List.mem_map_of_mem (f := bare) hl
  rw [←map_bare_completed] at hm
  obtain ⟨k, hk, he⟩ := List.mem_map.mp hm
  obtain ⟨_, ht⟩ := Drawer.exists_colon (.inr (hp ▸ Option.some_ne_none p))
  have ⟨_, hr⟩ := exists_printsAs (completed (lines t))
  rw [←he] at hc ho hp ht
  refine (hr.line_or_drawer hk (Construct.ofLine_of_colon ht ho) hc hp).imp (⟨k, he, ·⟩) ?_
  exact fun ⟨d, hd, hm⟩ => ⟨d, hasDrawer_ofEntries_iff.mpr hd, hm⟩

-- What a section has as a property is a property of one of its drawers.
theorem hasProperty_of_property? {s : Section} {name value : Text} (h : s ∈ (ofText t).sections.preorder)
    (hv : s.property? name = some value) : (ofText t).HasProperty name value := by
  obtain ⟨c, d, hc, hd, ⟨key, hk⟩, _⟩ := Section.property?_eq_some_iff.mp hv
  exact ⟨d, key, .inr ⟨s, h, c, hc, hd.mem⟩, hk.mem, hk.holds⟩

end Document

end Transclusion
