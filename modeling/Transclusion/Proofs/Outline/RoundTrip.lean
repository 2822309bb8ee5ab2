import Transclusion.Outline.Visit
import Transclusion.Proofs.Outline.Reprinting

namespace Transclusion

open Text

section Headings

def Entry.heading? : Entry → Option Headline
  | heading h => some h
  | _ => none

theorem Entry.heading?_reread (e : Entry) :
    e.reread.heading? = e.heading?.bind fun h => Headline.ofLine? h.line := by
  cases e
  case heading h => cases hh : Headline.ofLine? h.line <;> simp [reread, heading?, hh]
  all_goals rfl

theorem filterMap_heading?_reread (es : List Entry) :
    (es.map Entry.reread).filterMap Entry.heading? =
      (es.filterMap Entry.heading?).filterMap fun h => Headline.ofLine? h.line := by
  simp only [List.filterMap_map, List.filterMap_filterMap, Function.comp_def, Entry.heading?_reread]

-- Nothing changes where each headline reads as itself.
theorem map_reread_of_headings {es : List Entry}
    (h : ∀ x ∈ es.filterMap Entry.heading?, Headline.ofLine? x.line = some x) :
    es.map Entry.reread = es := by
  refine (List.map_congr_left fun e he => ?_).trans (List.map_id es)
  cases e
  case heading x => rw [Entry.reread, h x (List.mem_filterMap.mpr ⟨_, he, rfl⟩)]; rfl
  all_goals rfl

theorem Forest.preorder_graft (h : Headline) (c : Content) (f : Forest) :
    (f.graft h c).preorder = ⟨h, c.body?, f.deeper h.stars⟩ :: f.preorder := by
  have hf := congrArg preorder (f.deeper_append_beyond h.stars)
  rw [preorder_append] at hf
  rw [graft, preorder, hf]

theorem Forest.headlines_ofHeadings (hs : List (Headline × Content)) :
    (ofHeadings hs).preorder.map (·.headline) = hs.map (·.1) := by
  induction hs
  case nil          => rfl
  case cons x hs hi => simpa [ofHeadings, preorder_graft] using hi

theorem headings_gather (es : List Entry) : (gather es).2.map (·.1) = es.filterMap Entry.heading? := by
  induction es
  case nil => rfl
  case cons e es hi => cases e <;> simp [gather, Entry.heading?, List.filterMap_cons, hi]

theorem Document.headlines_ofEntries (es : List Entry) :
    (ofEntries es).sections.preorder.map (·.headline) = es.filterMap Entry.heading? := by
  rw [←headings_gather, ←Forest.headlines_ofHeadings]
  rfl

theorem Document.forall_headlines {p : Headline → Prop} (es : List Entry) :
    (∀ s ∈ (ofEntries es).sections.preorder, p s.headline) ↔
      ∀ h ∈ es.filterMap Entry.heading?, p h := by
  rw [←headlines_ofEntries, List.forall_mem_map]

end Headings

section Endings

variable {l : Text} {ls : List Text} {e : Entry} {m : Mode}

-- An entry that is not a line as it was read ends with a flat line.
def Entry.IsNormal (e : Entry) : Prop :=
  (∃ l, e = line l) ∨ ∃ s p, IsFlatLine p ∧ e.markup = s ++ p

theorem Entry.isNormal_of_mem_lines (h : e ∈ ls.map line) : e.IsNormal := by
  obtain ⟨l, _, rfl⟩ := List.mem_map.mp h
  exact .inl ⟨l, rfl⟩

theorem Mode.isNormal_readPlain (hs : IsSmooth l) (h : e ∈ (readPlain l).2) : e.IsNormal := by
  rw [readPlain_eq] at h
  cases hl : Construct.ofLine l <;> simp only [hl, List.mem_singleton, List.not_mem_nil] at h
  case block | text => exact .inl ⟨l, h⟩
  case heading x =>
    subst h
    exact .inr ⟨[], _, Construct.isFlatLine_heading_markup hl hs, rfl⟩
  case keyword k =>
    subst h
    exact .inr ⟨[], _, Construct.isFlatLine_keyword_markup hl hs, rfl⟩

theorem Mode.isNormal_read (hs : IsSmooth l) (h : e ∈ (m.read l).2) : e.IsNormal := by
  cases m
  case plain => exact isNormal_readPlain hs h
  case block => exact .inl ⟨l, List.mem_singleton.mp h⟩
  case drawer ps ks =>
    rw [read] at h
    split at h
    case isTrue =>
      cases List.mem_singleton.mp h
      exact .inr ⟨_, _, Drawer.isFlatLine_lastLine, Drawer.markup_eq_lines ps⟩
    case isFalse =>
      split at h
      case h_1 => cases h
      case h_2 =>
        rcases List.mem_append.mp h with h | h
        · exact Entry.isNormal_of_mem_lines h
        · exact isNormal_readPlain hs h

theorem Mode.isNormal_entries (hs : ∀ l ∈ ls, IsSmooth l) (h : e ∈ m.entries ls) : e.IsNormal := by
  induction ls generalizing m
  case nil =>
    cases m
    case plain | block => cases h
    case drawer ps ks  => exact Entry.isNormal_of_mem_lines h
  case cons l ls hi =>
    have ⟨hl, hs⟩ := List.forall_mem_cons.mp hs
    rw [entries_cons, List.mem_append] at h
    exact h.elim (isNormal_read hl) (hi hs)

end Endings

section Resplitting

variable {k : Text} {m : Mode} {es fs gs : List Entry}

theorem gather_append_congr (h : gather fs = gather gs) (es : List Entry) :
    gather (es ++ fs) = gather (es ++ gs) := by
  induction es
  case nil          => exact h
  case cons e es hi => cases e <;> simp [gather, hi]

theorem gather_lines (l k : Text) : gather [.line (l ++ k)] = gather [.line l, .line k] := rfl

theorem Construct.ofLine_newline : ofLine ['\n'] = text := by
  have hh : Headline.ofLine? (bare ['\n']) = none := by decide +kernel
  have hb : Block.opens? (bare ['\n']) = none := by decide +kernel
  have hd : Drawer.opens (bare ['\n']) = false := by decide +kernel
  have hk : Keyword.ofLine? (bare ['\n']) = none := by decide +kernel
  simp [ofLine, hh, hb, hd, hk]

theorem Drawer.breaksOff_newline : BreaksOff [['\n']] := by
  rintro _ ⟨⟩
  decide +kernel

theorem Construct.ofLine_congr {l k : Text} (h : bare l = bare k) : ofLine l = ofLine k := by
  rw [ofLine, h, ofLine]

namespace Mode

theorem entries_nil (m : Mode) : m.entries [] = m.rest := rfl

theorem entries_append (m : Mode) (ls ls' : List Text) :
    m.entries (ls ++ ls') = (m.readAll ls).2 ++ (m.readAll ls).1.entries ls' := by
  simp [entries, readAll_append]

theorem entries_plain_newline : plain.entries [['\n']] = [.line ['\n']] := by
  simp [entries_cons, entries_nil, read, readPlain_eq, Construct.ofLine_newline, rest]

theorem entries_block_newline (name : Text) : (block name).entries [['\n']] = [.line ['\n']] := by
  rw [entries_cons, read]
  split <;> rfl

theorem entries_drawer_newline (ps : List (Text × Text)) (ks : List Text) :
    (drawer ps ks).entries [['\n']] = ks.map .line ++ [.line ['\n']] := by
  rw [entries_breaksOff Drawer.breaksOff_newline, entries_plain_newline]

theorem gather_entries_plain_apart (hk : bare (k ++ ['\n']) = bare k)
    (h : ∀ e ∈ (plain.entries [k ++ ['\n']]).getLast?, ∃ l, e = .line l) :
    gather (plain.entries [k ++ ['\n']]) = gather (plain.entries [k, ['\n']]) := by
  have hc := Construct.ofLine_congr hk
  simp only [entries_cons _ k, entries_cons _ (k ++ ['\n']), entries_nil, read, readPlain_eq, hc] at h ⊢
  cases hl : Construct.ofLine k <;> simp only [hl] at h ⊢
  case heading x => cases h _ rfl with | intro _ h => cases h
  case keyword x => cases h _ rfl with | intro _ h => cases h
  case drawer    => rw [entries_drawer_newline]; rfl
  case text      => rw [entries_plain_newline]; rfl
  case block     => rfl

-- A line that stays as it is may be parted from the line feed at its end.
theorem gather_entries_apart (hk : bare (k ++ ['\n']) = bare k)
    (h : ∀ e ∈ (m.entries [k ++ ['\n']]).getLast?, ∃ l, e = .line l) :
    gather (m.entries [k ++ ['\n']]) = gather (m.entries [k, ['\n']]) := by
  cases m
  case plain => exact gather_entries_plain_apart hk h
  case block name =>
    simp only [entries_cons _ k, entries_cons _ (k ++ ['\n']), entries_nil, read, hk]
    split
    case isTrue  => rw [entries_plain_newline]; rfl
    case isFalse => rw [entries_block_newline]; rfl
  case drawer ps ks =>
    cases hd : Drawer.closes (bare k)
    case true =>
      simp only [entries_cons, read, hk, if_pos hd] at h
      cases h _ rfl with | intro _ h => cases h
    case false =>
      cases hp : Drawer.property? (bare k)
      case some p =>
        simp only [entries_cons _ k, entries_cons _ (k ++ ['\n']), entries_nil, read, hk, hd, hp,
          Bool.false_eq_true, if_false, List.nil_append, rest, entries_drawer_newline, List.map_append,
          List.append_assoc]
        exact gather_append_congr (gather_lines k ['\n']) _
      case none =>
        have hb (x : Text) (hx : bare x = bare k) (ls : List Text) : Drawer.BreaksOff (x :: ls) := by
          rintro _ ⟨⟩
          exact ⟨hx ▸ hd, hx ▸ hp⟩
        rw [entries_breaksOff (hb _ hk _)] at h ⊢
        rw [entries_breaksOff (hb _ rfl _)]
        refine gather_append_congr (gather_entries_plain_apart hk fun e he => h e ?_) _
        rw [List.getLast?_append, Option.mem_def.mp he]
        rfl

end Mode

end Resplitting

section Documents

variable {ls ps qs : List Text}

-- Only a line as it was read can print with two ends.
theorem PrintsAs.line_of_getLast? {front : List Text} {k : Text} {e : Entry}
    (h : PrintsAs ls (front ++ [k ++ ['\n']])) (hs : ∀ l ∈ ls, IsSmooth l) (hk : IsLine k)
    (he : (Mode.plain.entries ls).getLast? = some e) : ∃ l, e = .line l := by
  rcases Mode.isNormal_entries hs (List.mem_of_getLast? he) with hl | ⟨s, p, hp, hm⟩
  · exact hl
  · obtain ⟨es, hes⟩ := List.getLast?_eq_some_iff.mp he
    have hf := h.flatten_eq
    rw [hes, List.flatMap_append, List.flatMap_singleton, hm, List.flatten_append,
      List.flatten_singleton, ←List.append_assoc] at hf
    exact absurd hf (hp.not_doubled hk)

theorem PrintsAs.gather_resplit (h : PrintsAs ls ps) (hs : ∀ l ∈ ls, IsSmooth l) (hr : Resplits ps qs) :
    gather (Mode.plain.entries qs) = gather ((Mode.plain.entries ls).map Entry.reread) := by
  rw [←h.reread hs]
  cases hr with
  | same => rfl
  | @apart k front hk hr hn =>
    have hb : bare (k ++ ['\n']) = bare k := List.rdropWhile_concat_pos _ k '\n' rfl
    rw [Mode.entries_append, Mode.entries_append]
    refine gather_append_congr (Mode.gather_entries_apart hb fun e he => ?_).symm _
    have he : e ∈ (Mode.plain.entries (front ++ [k ++ ['\n']])).getLast? := by
      rw [Mode.entries_append, List.getLast?_append, Option.mem_def.mp he]
      rfl
    rw [h.reread hs, List.getLast?_map] at he
    obtain ⟨e, hl, rfl⟩ := Option.map_eq_some_iff.mp he
    obtain ⟨l, rfl⟩ := h.line_of_getLast? hs hk hl
    exact ⟨l, rfl⟩

namespace Document

-- What is printed reads as the same entries, and each headline as what its line says.
theorem ofText_markup (t : Text) :
    ofText (ofText t).markup =
      ofEntries ((Entry.ofLines (completed (lines t))).map Entry.reread) := by
  have hf := (lined_lines t).finished
  have ⟨ps, hp⟩ := exists_printsAs (completed (lines t))
  have hr := (hf.of_pieces (hp.pieces hf.isSmooth)).resplits
  have hm : (ofText t).markup = ps.flatten := (markup_ofEntries _).trans hp.flatten_eq
  have hg := hp.gather_resplit hf.isSmooth hr
  rw [hm, ofText, ofEntries, ofEntries]
  exact congrArg (fun g : Content × List (Headline × Content) => (⟨g.1.body?, .ofHeadings g.2⟩ : Document)) hg

-- Only headlines can fail to be read back.
theorem ofText_markup_eq_self_iff (t : Text) :
    (ofText (ofText t).markup = ofText t ↔
      ∀ s ∈ (ofText t).sections.preorder, Headline.ofLine? s.headline.line = some s.headline) ∧
    ((∀ s ∈ (ofText t).sections.preorder, Headline.ofLine? s.headline.line = some s.headline) →
      (ofText (ofText t).markup).markup = (ofText t).markup) := by
  have hi : ofText (ofText t).markup = ofText t ↔
      ∀ s ∈ (ofText t).sections.preorder, Headline.ofLine? s.headline.line = some s.headline := by
    rw [ofText_markup, ofText, forall_headlines (p := fun h => Headline.ofLine? h.line = some h)]
    constructor
    case mp =>
      intro h
      have hh := congrArg (fun d => d.sections.preorder.map (·.headline)) h
      simp only [headlines_ofEntries, filterMap_heading?_reread] at hh
      exact List.filterMap_eq_map_iff_forall_eq_some.mp (hh.trans (List.map_id _).symm)
    case mpr =>
      intro h
      rw [map_reread_of_headings h]
  exact ⟨hi, fun h => congrArg markup (hi.mpr h)⟩

-- The first ends with a form feed only, and the second prints as a star and nothing else.
theorem ofText_markup_notes :
    (let t := "#+title:  Notes\r\n* TODO One  :a:\n:properties:\n :ID:\t7\n:end:\nrest\x0c".toList
     ofText (ofText t).markup = ofText t ∧ (ofText (ofText t).markup).markup = (ofText t).markup) ∧
    (let t := "* \n".toList
     ofText (ofText t).markup ≠ ofText t) := by
  refine ⟨⟨(ofText_markup_eq_self_iff _).left.mpr ?_, (ofText_markup_eq_self_iff _).right ?_⟩,
    mt (ofText_markup_eq_self_iff _).left.mp ?_⟩ <;> decide +kernel

end Document

end Documents

end Transclusion
