import Transclusion.Files.IdLine
import Transclusion.Proofs.Outline.Properties
import Transclusion.Proofs.Text.Case

namespace Transclusion.IdLine

open Text

variable {s r id m name : Text}

-- `:ID:` in any case.
def IsMark (m : Text) : Prop :=
  List.Forall₂ (fun a c => agree a c) ":ID:".toList m

-- A place in a text where an id line stands. The blanks before the mark, behind it and behind the id
-- may go over ends of lines.
structure Place where
  front : Text
  pad : Text
  mark : Text
  gap : Text
  id : Text
  tail : Text
  back : Text
  starts : ∀ c ∈ front.getLast?, c = '\n'
  pad_blank : isAllBlank pad
  isMark : IsMark mark
  gap_ne_nil : gap ≠ []
  gap_blank : isAllBlank gap
  id_ne_nil : id ≠ []
  id_solid : IsSolid id
  tail_blank : isAllBlank tail
  back_head : ∀ c ∈ back.head?, isBlank c = false
  ends : '\n' ∈ tail ∨ back = []

namespace Place

variable (x : Place)

-- The text from the mark on.
def rest : Text :=
  x.mark ++ (x.gap ++ (x.id ++ (x.tail ++ x.back)))

def text : Text :=
  x.front ++ (x.pad ++ x.rest)

-- The same id line with something else before its mark.
def behind (front pad : Text) (hf : ∀ c ∈ front.getLast?, c = '\n') (hp : isAllBlank pad) : Place :=
  { x with front, pad, starts := hf, pad_blank := hp }

end Place

section Marks

theorem isMark_iff : IsMark m ↔
    ∃ name, m = ':' :: name ++ [':'] ∧ List.Forall₂ (fun a c => agree a c) "ID".toList name := by
  constructor
  case mp =>
    intro h
    obtain _ | ⟨ha, h⟩ := h
    obtain _ | ⟨hb, h⟩ := h
    obtain _ | ⟨hc, h⟩ := h
    obtain _ | ⟨hd, ⟨⟩⟩ := h
    cases eq_colon_of_agree ha
    cases eq_colon_of_agree hd
    exact ⟨_, rfl, .cons hb (.cons hc .nil)⟩
  case mpr =>
    rintro ⟨name, rfl, hi⟩
    exact .cons (agree_refl ':') (List.rel_append hi (.cons (agree_refl ':') .nil))

theorem isName_of_agree (h : List.Forall₂ (fun a c => agree a c) "ID".toList name) : IsName name :=
  .of_agree h (by decide) (by decide +kernel) (by decide +kernel)

-- A name of two letters is no longer word.
theorem not_spelled {w : Text} (hn : List.Forall₂ (fun a c => agree a c) "ID".toList name)
    (hw : w.length ≠ 2) : afterFold? w name ≠ some [] := by
  intro h
  have hl : name.length = w.length + 0 := afterFold?_length h
  exact hw (hl.symm.trans hn.length_eq.symm)

theorem IsMark.isSolid (h : IsMark m) : IsSolid m :=
  isSolid_of_forall₂_agree h (by decide +kernel)

theorem IsMark.head? (h : IsMark m) (s : Text) : ∀ c ∈ (m ++ s).head?, isBlank c = false := by
  obtain ⟨name, rfl, _⟩ := isMark_iff.mp h
  rintro _ ⟨⟩
  decide

end Marks

section Reading

namespace Place

variable (x : Place)

theorem head?_rest : ∀ c ∈ x.rest.head?, isBlank c = false :=
  x.isMark.head? _

theorem head?_gap (s : Text) : ∀ c ∈ (x.gap ++ s).head?, isBlank c := by
  intro c hc
  rw [List.head?_append_of_ne_nil _ x.gap_ne_nil] at hc
  exact List.all_eq_true.mp x.gap_blank c (List.mem_of_head? hc)

theorem head?_id (s : Text) : ∀ c ∈ (x.id ++ s).head?, isBlank c = false := by
  intro c hc
  rw [List.head?_append_of_ne_nil _ x.id_ne_nil] at hc
  exact x.id_solid c (List.mem_of_head? hc)

theorem head?_tail : ∀ c ∈ (x.tail ++ x.back).head?, isBlank c := by
  intro c hc
  by_cases hn : x.tail = []
  case pos =>
    have hb : x.back = [] := x.ends.resolve_left (by simp [hn])
    simp [hn, hb] at hc
  case neg =>
    rw [List.head?_append_of_ne_nil _ hn] at hc
    exact List.all_eq_true.mp x.tail_blank c (List.mem_of_head? hc)

end Place

theorem exists_place_of_read? (h : read? s = some (id, r)) :
    ∃ x : Place, x.text = s ∧ x.front = [] ∧ x.id = id ∧ x.back = r := by
  simp only [read?, Option.bind_eq_bind, Option.bind_eq_some_iff, given_eq_some_iff,
    afterFold?_eq_some_iff] at h
  obtain ⟨u, ⟨mark, hm, hf⟩, _, ⟨hg, hn⟩, he⟩ := h
  obtain ⟨hu, hg⟩ := Option.ite_none_right_eq_some.mp hg
  obtain ⟨ht, he⟩ := Option.ite_none_right_eq_some.mp he
  cases hg
  cases he
  obtain ⟨pad, hpad, hs⟩ := exists_trimStart s
  obtain ⟨gap, hgap, hv⟩ := exists_trimStart u
  have hw : (trimStart u).takeWhile (!isBlank ·) ++ (trimStart u).dropWhile (!isBlank ·) = trimStart u :=
    List.takeWhile_append_dropWhile
  generalize (trimStart u).dropWhile (!isBlank ·) = w at hw ht
  have ha : w.takeWhile isBlank ++ trimStart w = w := List.takeWhile_append_dropWhile
  refine ⟨{
    front := [], pad, mark, gap, id := (trimStart u).takeWhile (!isBlank ·), tail := w.takeWhile isBlank
    back := trimStart w, starts := by simp, pad_blank := hpad, isMark := hf, gap_ne_nil := ?gap
    gap_blank := hgap, id_ne_nil := hn, id_solid := fun c hc => by simpa using List.mem_takeWhile_imp hc
    tail_blank := List.all_eq_true.mpr fun _ => List.mem_takeWhile_imp, back_head := head?_trimStart w
    ends := ?ends }, ?text, rfl, rfl, rfl⟩
  case gap =>
    rintro rfl
    rw [Option.any_eq_true] at hu
    obtain ⟨c, hc, hb⟩ := hu
    rw [List.nil_append] at hv
    cases (head?_trimStart u c (by rwa [←hv])).symm.trans hb
  case ends =>
    rcases Bool.or_eq_true _ _ ▸ ht with hn | hn
    · exact .inl (by simpa using hn)
    · exact .inr (List.dropWhile_eq_nil_iff.mpr (List.all_eq_true.mp hn))
  case text => rw [Place.text, Place.rest, List.nil_append, ha, hw, ←hv, ←hm, ←hs]

theorem Place.read?_text (x : Place) (hf : x.front = []) : read? x.text = some (x.id, x.back) := by
  have hm : trimStart x.text = x.rest := by
    rw [text, hf]
    exact dropWhile_append_of_head? (List.all_eq_true.mp x.pad_blank) x.head?_rest
  have hi : trimStart (x.gap ++ (x.id ++ (x.tail ++ x.back))) = x.id ++ (x.tail ++ x.back) :=
    dropWhile_append_of_head? (List.all_eq_true.mp x.gap_blank) (x.head?_id _)
  have hb : trimStart (x.tail ++ x.back) = x.back :=
    dropWhile_append_of_head? (List.all_eq_true.mp x.tail_blank) x.back_head
  have hw : (x.tail ++ x.back).takeWhile isBlank = x.tail :=
    takeWhile_append_of_head? (List.all_eq_true.mp x.tail_blank) x.back_head
  have hs : ∀ c ∈ x.id, (!isBlank c) = true := by simpa [IsSolid] using x.id_solid
  have ht : ∀ c ∈ (x.tail ++ x.back).head?, (!isBlank c) = false := by
    simpa using x.head?_tail
  have hh : (x.gap ++ (x.id ++ (x.tail ++ x.back))).head?.any isBlank := by
    obtain ⟨c, s, hg⟩ := List.exists_cons_of_ne_nil x.gap_ne_nil
    simpa [hg] using x.head?_gap [] c (by simp [hg])
  simp only [read?, Option.bind_eq_bind, Option.bind_eq_some_iff, given_eq_some_iff,
    afterFold?_eq_some_iff]
  refine ⟨_, ⟨x.mark, hm, x.isMark⟩, x.id, ⟨?_, x.id_ne_nil⟩, ?_⟩
  · rw [if_pos hh, hi, takeWhile_append_of_head? hs ht]
  · rw [hi, dropWhile_append_of_head? hs ht, hb, hw, if_pos]
    rcases x.ends with hn | hn
    · simp [hn]
    · simp [hn, x.tail_blank]

-- What is put before an id line, up to some blanks at the start of a line, leaves it as it is.
theorem Place.exists_after (x : Place) (above : Text) {pad : Text} (hp : isAllBlank pad) :
    ∃ y : Place, y.text = above ++ '\n' :: (pad ++ x.text) ∧ y.id = x.id := by
  by_cases hf : x.front = []
  case pos =>
    have hb : isAllBlank (pad ++ x.pad) := by
      simp only [isAllBlank, List.all_append, Bool.and_eq_true]
      exact ⟨hp, x.pad_blank⟩
    refine ⟨x.behind (above ++ ['\n']) (pad ++ x.pad) (by simp) hb, ?_, rfl⟩
    simp [text, behind, hf, rest]
  case neg =>
    have hs : ∀ c ∈ (above ++ '\n' :: (pad ++ x.front)).getLast?, c = '\n' := by
      rw [show above ++ '\n' :: (pad ++ x.front) = (above ++ '\n' :: pad) ++ x.front by simp,
        List.getLast?_append_of_ne_nil _ hf]
      exact x.starts
    refine ⟨x.behind (above ++ '\n' :: (pad ++ x.front)) x.pad hs x.pad_blank, ?_, rfl⟩
    simp [text, behind, rest]

theorem nextLine_append {above : Text} (h : '\n' ∉ above) (s : Text) : nextLine (above ++ '\n' :: s) = s := by
  have ha : ∀ c ∈ above, (c != '\n') = true := fun c hc => bne_iff_ne.mpr fun he => h (he ▸ hc)
  have hd : (above ++ '\n' :: s).dropWhile (· != '\n') = '\n' :: s := dropWhile_append_of_head? ha (by simp)
  rw [nextLine, hd, List.tail_cons]

theorem nextLine_cases (s : Text) : nextLine s = [] ∨ ∃ above, s = above ++ '\n' :: nextLine s := by
  by_cases hm : '\n' ∈ s
  case pos =>
    obtain ⟨above, below, rfl, hn⟩ := List.eq_append_cons_of_mem hm
    exact .inr ⟨above, by rw [nextLine_append hn]⟩
  case neg =>
    have hd : s.dropWhile (· != '\n') = [] :=
      List.dropWhile_eq_nil_iff.mpr fun c hc => bne_iff_ne.mpr fun h => hm (h ▸ hc)
    exact .inl (by rw [nextLine, hd, List.tail_nil])

theorem exists_place_of_mem_ids (h : id ∈ ids s) : ∃ x : Place, x.text = s ∧ x.id = id := by
  fun_induction ids s
  case case1 => cases h
  case case2 s hs i r hr hi ih =>
    obtain ⟨x, rfl, hf, rfl, rfl⟩ := exists_place_of_read? hr
    rcases List.mem_cons.mp h with rfl | h
    case inl => exact ⟨x, rfl, rfl⟩
    case inr =>
      have hn : '\n' ∈ x.tail := x.ends.resolve_right fun hb => by simp [hb, ids] at h
      obtain ⟨y, hy, rfl⟩ := ih h
      obtain ⟨above, pad, hx⟩ := List.append_of_mem hn
      have hp : isAllBlank pad := by
        have ht := List.all_eq_true.mp x.tail_blank
        exact List.all_eq_true.mpr fun c hc => ht c (by simp [hx, hc])
      obtain ⟨z, hz, hzi⟩ := y.exists_after (x.pad ++ (x.mark ++ (x.gap ++ (x.id ++ above)))) hp
      refine ⟨z, hz.trans ?_, hzi⟩
      rw [hy, Place.text, Place.rest, hf, hx]
      simp
  case case3 s hs hr hl ih =>
    obtain ⟨y, hy, rfl⟩ := ih h
    rcases nextLine_cases s with hn | ⟨above, he⟩
    case inl => simp [hn, ids] at h
    case inr =>
      obtain ⟨z, hz, hzi⟩ := y.exists_after above (rfl : isAllBlank [] = true)
      exact ⟨z, by rw [hz, hy, List.nil_append, ←he], hzi⟩

end Reading

section Scanning

namespace Place

variable {x : Place}

theorem exists_nextLine (hf : x.front ≠ []) :
    ∃ y : Place, y.text = nextLine x.text ∧ y.id = x.id ∧ y.gap = x.gap := by
  have hm : '\n' ∈ x.front := by
    have hl := List.getLast?_eq_some_getLast hf
    exact x.starts _ hl ▸ List.getLast_mem hf
  obtain ⟨above, front, he, hn⟩ := List.eq_append_cons_of_mem hm
  have hs : ∀ c ∈ front.getLast?, c = '\n' := forall_getLast?_of_suffix x.starts ⟨above ++ ['\n'], by simp [he]⟩
  have hd : nextLine x.text = front ++ (x.pad ++ x.rest) := by
    rw [text, he, List.append_assoc, List.cons_append, nextLine_append hn]
  exact ⟨x.behind front x.pad hs x.pad_blank, hd.symm, rfl, rfl⟩

theorem id_eq_of_rest_eq {y : Place} (h : x.rest = y.rest) : x.id = y.id := by
  have hx : read? x.rest = some (x.id, x.back) := (x.behind [] [] (by simp) rfl).read?_text rfl
  have hy : read? y.rest = some (y.id, y.back) := (y.behind [] [] (by simp) rfl).read?_text rfl
  exact congrArg Prod.fst (Option.some.inj (hx.symm.trans (h ▸ hy)))

-- The mark is not the id of another mark, because the id stands on the same line.
theorem rest_ne_id {y : Place} (hn : '\n' ∉ x.gap) : x.rest ≠ y.id ++ (y.tail ++ y.back) := by
  intro h
  have hg : (x.gap ++ (x.id ++ (x.tail ++ x.back))).head?.all isBlank :=
    Option.all_eq_true _ _ |>.mpr (x.head?_gap _)
  obtain ⟨a, hm, ha⟩ := exists_of_append_eq_append y.id_solid hg h
  have ha' : a = [] := by
    by_contra hne
    obtain ⟨c, a, rfl⟩ := List.exists_cons_of_ne_nil hne
    cases (x.isMark.isSolid c (by simp [hm])).symm.trans (y.head?_tail c (by simp [ha]))
  rw [ha', List.nil_append] at ha
  obtain ⟨b, hg, hb⟩ := exists_of_append_eq_blanks y.tail_blank (x.head?_id _) ha.symm
  rcases y.ends with ht | ht
  · exact hn (hg ▸ List.mem_append_left b ht)
  · simp [ht, x.id_ne_nil] at hb

-- The text from where no blank stands before the mark.
theorem exists_of_suffix (above : Text) (h : x.front ++ x.pad = above ++ s)
    (hs : ∀ c ∈ s.head?, isBlank c = false) :
    ∃ y : Place, y.text = s ++ x.rest ∧ y.id = x.id ∧ y.gap = x.gap := by
  rcases List.append_eq_append_iff.mp h with ⟨a, rfl, hp⟩ | ⟨a, hf, rfl⟩
  case inl =>
    have hn : s = [] := by
      by_contra hne
      obtain ⟨c, s, rfl⟩ := List.exists_cons_of_ne_nil hne
      cases (hs c rfl).symm.trans (List.all_eq_true.mp x.pad_blank c (by simp [hp]))
    exact ⟨x.behind [] [] (by simp) rfl, by simp [text, behind, hn, rest], rfl, rfl⟩
  case inr =>
    have ha := forall_getLast?_of_suffix x.starts ⟨above, hf.symm⟩
    exact ⟨x.behind a x.pad ha x.pad_blank, by simp [text, behind, rest], rfl, rfl⟩

-- An id line before this one leaves it as it is.
theorem exists_behind (hn : '\n' ∉ x.gap) (h : read? x.text = some (id, r)) :
    id = x.id ∨ ∃ y : Place, y.text = r ∧ y.id = x.id ∧ y.gap = x.gap := by
  obtain ⟨z, hz, hzf, rfl, rfl⟩ := exists_place_of_read? h
  have hl : ∀ c ∈ (x.front ++ x.pad).getLast?, isBlank c := by
    refine forall_getLast?_append (fun c hc => x.starts c hc ▸ by decide) fun c hc => ?_
    exact List.all_eq_true.mp x.pad_blank c (List.mem_of_getLast? hc)
  have hx : (x.front ++ x.pad) ++ x.rest = z.pad ++ z.rest := by
    rw [List.append_assoc]
    exact hz.symm.trans (by rw [text, hzf, List.nil_append])
  -- What comes before the mark ends with a blank, and so does each part of it.
  obtain ⟨a, ha, hx⟩ := exists_of_append_eq_blanks z.pad_blank x.head?_rest hx
  by_cases hna : a = []
  case pos => exact .inl (id_eq_of_rest_eq (by rw [hx, hna, List.nil_append]))
  case neg =>
    have hla := forall_getLast?_of_suffix hl ⟨z.pad, ha.symm⟩
    obtain ⟨b, hb, hnb, hx⟩ := exists_of_append_eq_word z.isMark.isSolid hna hla hx.symm
    obtain ⟨c, hc, hx⟩ := exists_of_append_eq_blanks z.gap_blank x.head?_rest hx.symm
    by_cases hnc : c = []
    case pos => exact absurd hx.symm (by rw [hnc, List.nil_append]; exact rest_ne_id hn)
    case neg =>
      have hlc : ∀ k ∈ c.getLast?, isBlank k :=
        forall_getLast?_of_suffix hla ⟨z.mark ++ z.gap, by rw [hb, hc, List.append_assoc]⟩
      obtain ⟨d, hd, _, hx⟩ := exists_of_append_eq_word z.id_solid hnc hlc hx.symm
      obtain ⟨e, he, hx⟩ := exists_of_append_eq_blanks z.tail_blank x.head?_rest hx.symm
      refine .inr ?_
      rw [hx]
      refine exists_of_suffix (z.pad ++ (z.mark ++ (z.gap ++ (z.id ++ z.tail)))) ?_ ?_
      · simp [ha, hb, hc, hd, he]
      · intro k hk
        refine z.back_head k ?_
        rw [hx, List.head?_append, Option.mem_def.mp hk]
        rfl

end Place

-- No id line is passed over whose mark and id are on one line.
theorem mem_ids (x : Place) (h : '\n' ∉ x.gap) : x.id ∈ ids x.text := by
  generalize ht : x.text = s
  fun_induction ids s generalizing x
  case case1 =>
    have hm := List.append_eq_nil_iff.mp (List.append_eq_nil_iff.mp (List.append_eq_nil_iff.mp ht).right).right
    cases (hm.left ▸ x.isMark : IsMark [])
  case case2 s hs i r hr hi ih =>
    subst ht
    rcases Place.exists_behind h hr with rfl | ⟨y, rfl, hy, hg⟩
    · exact List.mem_cons_self
    · exact List.mem_cons_of_mem _ (hy ▸ ih y (hg ▸ h) rfl)
  case case3 s hs hr hi ih =>
    subst ht
    by_cases hf : x.front = []
    case pos => cases hr.symm.trans (x.read?_text hf)
    case neg =>
      obtain ⟨y, ht, hy, hg⟩ := x.exists_nextLine hf
      exact hy ▸ ih y (hg ▸ h) ht

-- The mark on the first line would take the next mark as its id, had that no id of its own.
example : ids ":ID:\n:ID: k\n".toList = ["k".toList] ∧ ids ":ID:\n:ID:\n".toList = [":ID:".toList] := by
  decide +kernel

end Scanning

section Documents

variable {t : Text}

theorem trim_of_isSolid (h : IsSolid s) : trim s = s :=
  trim_eq_self_iff.mpr ⟨fun c hc => h c (List.mem_of_head? hc), fun c hc => h c (List.mem_of_getLast? hc)⟩

-- A property line is an id line, if it stands between line feeds.
theorem exists_place_of_property {front l back : Text} (hp : Drawer.property? l = some (name, id))
    (hn : List.Forall₂ (fun a c => agree a c) "ID".toList name) (hi : id ≠ []) (hs : IsSolid id)
    (hf : ∀ c ∈ front.getLast?, c = '\n') (hb : ∀ c ∈ back.head?, c = '\n') :
    ∃ x : Place, x.text = front ++ l ++ back ∧ x.id = id ∧ x.gap ⊆ l := by
  obtain ⟨r, ht, _, hr, rfl⟩ := field?_eq_some_iff.mp hp
  obtain ⟨pad, hpad, hl⟩ := exists_trimStart l
  obtain ⟨lead, trail, hlead, htrail, ha⟩ := exists_trim r
  obtain ⟨tail, htail, hback⟩ := exists_trimStart back
  have hl : l = pad ++ ([':'] ++ name ++ ':' :: (lead ++ trim r ++ trail)) :=
    (ht ▸ hl).trans (congrArg (fun r => pad ++ ([':'] ++ name ++ ':' :: r)) ha)
  have hgap : lead ≠ [] := by
    rintro rfl
    obtain ⟨c, v, hv⟩ := List.exists_cons_of_ne_nil hi
    rw [ha, hv] at hr
    cases (hs c (hv ▸ List.mem_cons_self)).symm.trans hr
  have hends : '\n' ∈ tail ∨ trimStart back = [] := by
    cases hc : back.head?
    case none   => exact .inr (by rw [List.head?_eq_none_iff.mp hc, trimStart_nil])
    case some c =>
      cases hb c hc
      rw [hback] at hc
      cases tail
      case nil      => cases head?_trimStart back _ hc
      case cons d v =>
        cases hc
        exact .inl List.mem_cons_self
  have hsub : lead ⊆ l := by
    rw [hl]
    intro c hc
    simp [hc]
  refine ⟨{
    front, pad, mark := ':' :: name ++ [':'], gap := lead, id := trim r, tail := trail ++ tail
    back := trimStart back, starts := hf, pad_blank := hpad, isMark := isMark_iff.mpr ⟨name, rfl, hn⟩
    gap_ne_nil := hgap, gap_blank := hlead, id_ne_nil := hi, id_solid := hs
    tail_blank := by simpa [isAllBlank] using ⟨List.all_eq_true.mp htrail, List.all_eq_true.mp htail⟩
    back_head := head?_trimStart back, ends := hends.imp_left (List.mem_append_right trail) }, ?_, rfl, hsub⟩
  calc
    _ = front ++ (pad ++ ([':'] ++ name ++ ':' :: (lead ++ trim r ++ trail))) ++ (tail ++ trimStart back) := by
      simp [Place.text, Place.rest]
    _ = front ++ l ++ back := by rw [←hl, ←hback]

-- Whatever is the id of a drawer is found, if lines end with line feeds and the id has no blank in it.
theorem mem_ids_of_hasProperty (hl : ∀ c ∈ t, isLineEnd c → c = '\n') (hi : id ≠ []) (hs : IsSolid id)
    (h : (Document.ofText t).HasProperty "ID".toList id) : id ∈ ids t := by
  obtain ⟨d, key, hd, hp, hk⟩ := h
  obtain ⟨l, hm, hp⟩ := Document.exists_line_of_hasDrawer hd hp
  have hf := flatten_lines t
  obtain ⟨front, back, he, hf, hb, hn⟩ := (lined_lines t).exists_flat (hf.symm ▸ hl) hm
  obtain ⟨x, hx, rfl, hg⟩ := exists_place_of_property hp (forall₂_agree_of_upper hk) hi hs hf hn
  rw [←flatten_lines t, he, ←hx]
  exact mem_ids x fun hn => by cases hb _ (hg hn)

-- With nothing but blanks around them, a mark and an id are a property.
theorem Place.exists_property (x : Place) {pad trail : Text} (hp : isAllBlank pad) (ht : isAllBlank trail) :
    ∃ name, Drawer.property? (pad ++ (x.mark ++ (x.gap ++ (x.id ++ trail)))) = some (name, x.id) ∧
      List.Forall₂ (fun a c => agree a c) "ID".toList name := by
  obtain ⟨name, hm, hn⟩ := isMark_iff.mp x.isMark
  refine ⟨name, field?_eq_some_iff.mpr ⟨x.gap ++ (x.id ++ trail), ?_, isName_of_agree hn, ?_, ?_⟩, hn⟩
  · calc trimStart (pad ++ (x.mark ++ (x.gap ++ (x.id ++ trail))))
      _ = x.mark ++ (x.gap ++ (x.id ++ trail)) :=
        dropWhile_append_of_head? (List.all_eq_true.mp hp) (x.isMark.head? _)
      _ = _ := by simp [hm]
  · exact Option.all_eq_true _ _ |>.mpr (x.head?_gap _)
  · rw [←List.append_assoc, trim_append x.gap_blank ht, trim_of_isSolid x.id_solid]

-- An id line is a line of the document with an id as a property, if its mark and its id are on one line.
theorem Place.exists_line (x : Place) (h : IsFlat x.gap) :
    ∃ l ∈ lines x.text, ∃ name, Drawer.property? (bare l) = some (name, x.id) ∧
      List.Forall₂ (fun a c => agree a c) "ID".toList name := by
  obtain ⟨above, pad, hp, ha, hpf⟩ := exists_flat_back x.pad
  obtain ⟨tail, below, ht, htf, hb⟩ := exists_flat_front x.tail
  have habove : ∀ c ∈ (x.front ++ above).getLast?, isLineEnd c :=
    forall_getLast?_append (fun c hc => x.starts c hc ▸ rfl) ha
  have hbelow : ∀ c ∈ (below ++ x.back).head?, isLineEnd c := by
    cases below
    case cons c s => exact hb
    case nil =>
      have he : x.back = [] := x.ends.resolve_left fun hn => by
        rw [ht, List.append_nil] at hn
        cases htf _ hn
      simp [he]
  have hl : IsFlat (pad ++ (x.mark ++ (x.gap ++ (x.id ++ tail)))) := by
    simp only [isFlat_append]
    exact ⟨hpf, x.isMark.isSolid.isFlat, h, x.id_solid.isFlat, htf⟩
  obtain ⟨e, hm, he⟩ := exists_mem_lines (by simp [x.id_ne_nil]) hl habove hbelow
  obtain ⟨e', hbare, he'⟩ := hl.exists_bare_append he
  have hpad : isAllBlank pad :=
    List.all_eq_true.mpr fun c hc => List.all_eq_true.mp x.pad_blank c (by simp [hp, hc])
  have htail : isAllBlank (tail ++ e') := by
    have htb := List.all_eq_true.mp x.tail_blank
    refine List.all_eq_true.mpr (List.forall_mem_append.mpr ⟨fun c hc => htb c (by simp [ht, hc]), ?_⟩)
    exact fun c hc => isBlank_of_isLineEnd (he' c hc)
  have hx : (x.front ++ above) ++ (pad ++ (x.mark ++ (x.gap ++ (x.id ++ tail))) ++ (below ++ x.back)) =
      x.text := by
    simp [text, rest, hp, ht]
  obtain ⟨name, hq, hn⟩ := x.exists_property hpad htail
  refine ⟨_, hx ▸ hm, name, ?_, hn⟩
  rw [hbare]
  simpa using hq

-- Where an id is found that is the id of no drawer: its mark stands on another line, or the line is text, or
-- the name in the mark has a letter whose upper case is not that of the name.
inductive IsStray (t id : Text) : Prop
  | apart {x : Place} (ht : x.text = t) (hi : x.id = id) (hg : ¬IsFlat x.gap)
  | loose {l name} (hl : .line l ∈ Entry.ofLines (completed (lines t)))
    (hp : Drawer.property? (bare l) = some (name, id))
    (hn : List.Forall₂ (fun a c => agree a c) "ID".toList name)
  | lookalike {d name} (hd : (Document.ofText t).HasDrawer d) (hp : (name, id) ∈ d.properties)
    (hn : List.Forall₂ (fun a c => agree a c) "ID".toList name) (hi : dottedCapitalI ∈ name)

theorem hasProperty_or_isStray (h : id ∈ ids t) :
    (Document.ofText t).HasProperty "ID".toList id ∨ IsStray t id := by
  obtain ⟨x, rfl, rfl⟩ := exists_place_of_mem_ids h
  by_cases hg : IsFlat x.gap
  case neg => exact .inr (.apart rfl rfl hg)
  case pos =>
    obtain ⟨l, hl, name, hp, hn⟩ := x.exists_line hg
    obtain ⟨r, ht, hm, _⟩ := field?_eq_some_iff.mp hp
    have ht : trimStart (bare l) = ':' :: name ++ ':' :: r := ht
    have hc : Drawer.closes (bare l) = false := by
      rw [Drawer.closes_eq ht hm, decide_eq_false (not_spelled hn (by decide)), Bool.false_and]
    have ho : Drawer.opens (bare l) = false := by
      rw [Drawer.opens_eq ht hm, decide_eq_false (not_spelled hn (by decide)), Bool.false_and]
    rcases Document.line_or_hasDrawer hl hc ho hp with ⟨k, hk, hl⟩ | ⟨d, hd, hp⟩
    case inl => exact .inr (.loose hl (hk ▸ hp) hn)
    case inr =>
      rcases upper_of_forall₂_agree hn with hu | hi
      · exact .inl ⟨d, name, hd, hp, hu⟩
      · exact .inr (.lookalike hd hp hn hi)

end Documents

end Transclusion.IdLine
