import Transclusion.Proofs.Directive.Search
import Transclusion.Proofs.Link.Parts

namespace Transclusion

open Text

namespace Directive

-- A link and perhaps a description, in brackets.
def opening (link : Text) (description : Option Text) : Text :=
  "[[".toList ++ link ++ description.elim [] ("][".toList ++ ·) ++ "]]".toList

-- A level with its number, as far as the digits go.
def LevelAt (s digits : Text) : Prop :=
  ∃ name gap after, s = name ++ (gap ++ (digits ++ after)) ∧
    List.Forall₂ (fun a c => agree a c) ":level".toList name ∧ IsGap gap ∧ digits ≠ [] ∧
      (∀ c ∈ digits, isDigit c) ∧ ∀ c ∈ after.head?, isDigit c = false

-- No other level starts before it.
def FirstLevel (s digits : Text) : Prop :=
  ∃ before after, s = before ++ after ∧ LevelAt after digits ∧
    ∀ b a ds, s = b ++ a → LevelAt a ds → before.length ≤ b.length

end Directive

-- The line is written as a directive, with `rest` behind the brackets.
structure Keyword.Spells (k : Keyword) (link : Text) (description : Option Text) (rest : Text) :
    Prop where
  key : lower k.key = "#+transclude:".toList
  value : ∃ v, k.value = some v ∧ trim v = Directive.opening link description ++ rest
  link_ne : link ≠ []
  link_closed : ']' ∉ link
  description_closed : ∀ d ∈ description, ']' ∉ d
  target : Link.HasTarget link

namespace Directive

variable {s t r link digits rest : Text} {description : Option Text} {k : Keyword}

section Brackets

-- A text up to the first closing mark.
theorem closed_iff {b : Char} : s.takeWhile (· != b) = t ∧ s.dropWhile (· != b) = b :: r ↔
    s = t ++ b :: r ∧ b ∉ t := by
  constructor
  case mp =>
    rintro ⟨rfl, h⟩
    refine ⟨?_, fun hc => ?_⟩
    · rw [←h, List.takeWhile_append_dropWhile]
    · simpa using List.mem_takeWhile_imp hc
  case mpr =>
    rintro ⟨rfl, h⟩
    have hp : ∀ c ∈ t, (c != b) = true := fun c hc => bne_iff_ne.mpr fun he => h (he ▸ hc)
    rw [List.takeWhile_append_of_pos hp, List.dropWhile_append_of_pos hp]
    simp

theorem brackets?_eq_some_iff :
    brackets? s = some (link, description, rest) ↔
      s = opening link description ++ rest ∧ link ≠ [] ∧ ']' ∉ link ∧ ∀ d ∈ description, ']' ∉ d := by
  simp only [brackets?, bind, Option.bind_eq_some_iff, after?_eq_some_iff, given_eq_some_iff, Option.some.injEq]
  constructor
  case mp =>
    rintro ⟨s, rfl, link, ⟨hl, hn⟩, h⟩
    split at h
    case h_1 hr =>
      cases h
      obtain ⟨rfl, hc⟩ := closed_iff.mp ⟨hl, hr⟩
      exact ⟨by simp [opening], hn, hc, by simp⟩
    case h_2 r hr =>
      obtain ⟨rfl, hc⟩ := closed_iff.mp ⟨hl, hr⟩
      simp only [Option.bind_eq_some_iff, after?_eq_some_iff, Option.some.injEq] at h
      obtain ⟨rest, hd, he⟩ := h
      generalize ht : r.takeWhile (· != ']') = d at he
      cases he
      obtain ⟨rfl, hc'⟩ := (closed_iff (r := ']' :: rest)).mp ⟨ht, hd⟩
      exact ⟨by simp [opening], hn, hc, by simpa using hc'⟩
    case h_3 => cases h
  case mpr =>
    rintro ⟨rfl, hn, hc, hd⟩
    cases description
    case none =>
      have ⟨hl, hr⟩ := (closed_iff (r := ']' :: rest)).mpr ⟨rfl, hc⟩
      refine ⟨link ++ ']' :: ']' :: rest, by simp [opening], link, ⟨hl, hn⟩, ?_⟩
      simp only [hr]
    case some d =>
      have ⟨hl, hr⟩ := (closed_iff (r := '[' :: (d ++ ']' :: ']' :: rest))).mpr ⟨rfl, hc⟩
      have ⟨hl', hr'⟩ := (closed_iff (r := ']' :: rest)).mpr ⟨rfl, hd d rfl⟩
      refine ⟨_, by simp [opening], link, ⟨hl, hn⟩, ?_⟩
      rw [hr]
      simp only [Option.bind_eq_some_iff, after?_eq_some_iff]
      exact ⟨rest, hr', by rw [hl']⟩

end Brackets

section Levels

theorem levelAt?_eq_some_iff : levelAt? s = some digits ↔ LevelAt s digits := by
  simp only [levelAt?, Option.bind_eq_some_iff, argument?_eq_some_iff, given_eq_some_iff, Option.some.injEq]
  constructor
  case mp =>
    rintro ⟨r, ⟨name, gap, rfl, hn, hg, _⟩, rfl, hd⟩
    refine ⟨name, gap, r.dropWhile isDigit, ?_, hn, hg, hd, fun _ => List.mem_takeWhile_imp, ?_⟩
    · rw [List.takeWhile_append_dropWhile]
    · intro c hc
      have hb := List.head?_dropWhile_not isDigit r
      simpa [show (r.dropWhile isDigit).head? = some c from hc] using hb
  case mpr =>
    rintro ⟨name, gap, after, rfl, hn, hg, hd, ha, hr⟩
    have ht : after.takeWhile isDigit = [] := by
      cases after
      case nil      => rfl
      case cons c s => exact List.takeWhile_cons_of_neg (by simp [hr c rfl])
    refine ⟨digits ++ after, ⟨name, gap, rfl, hn, hg, ?_⟩, ?_, hd⟩
    · obtain ⟨c, digits, rfl⟩ := List.exists_cons_of_ne_nil hd
      rintro _ ⟨⟩
      exact not_isBlank_of_isDigit (ha c List.mem_cons_self)
    · rw [List.takeWhile_append_of_pos ha, ht, List.append_nil]

theorem levelDigits?_eq_some_iff : levelDigits? s = some digits ↔ FirstLevel s digits := by
  simp only [levelDigits?_eq_search, search_eq_some_iff (show levelAt? [] = none from rfl),
    levelAt?_eq_some_iff, FirstLevel]

-- A number ends before the blanks at the end.
theorem levelAt_append_iff (ht : isAllBlank t) : LevelAt (s ++ t) digits ↔ LevelAt s digits := by
  have hb := List.all_eq_true.mp ht
  constructor
  case mp =>
    rintro ⟨name, gap, after, he, hn, hg, hd, ha, hr⟩
    rw [←List.append_assoc, ←List.append_assoc, List.append_eq_append_iff] at he
    rcases he with ⟨u, hu, rfl⟩ | ⟨u, rfl, rfl⟩
    case inr =>
      refine ⟨name, gap, u, by simp, hn, hg, hd, ha, fun c hc => hr c ?_⟩
      rw [List.head?_append, show u.head? = some c from hc]
      rfl
    case inl =>
      rcases List.eq_nil_or_concat' u with rfl | ⟨u, c, rfl⟩
      case inl => exact ⟨name, gap, [], by simpa using hu.symm, hn, hg, hd, ha, by simp⟩
      case inr =>
        obtain ⟨ds, d, rfl⟩ := (List.eq_nil_or_concat' digits).resolve_left hd
        rw [←List.append_assoc, ←List.append_assoc] at hu
        cases List.append_inj_right' hu rfl
        cases (hb c (by simp)).symm.trans (not_isBlank_of_isDigit (ha c (by simp)))
  case mpr =>
    rintro ⟨name, gap, after, rfl, hn, hg, hd, ha, hr⟩
    refine ⟨name, gap, after ++ t, by simp, hn, hg, hd, ha, fun c hc => ?_⟩
    rw [List.head?_append, Option.mem_def, Option.or_eq_some_iff] at hc
    rcases hc with hc | ⟨-, hc⟩
    · exact hr c hc
    · exact isDigit_of_isBlank (hb c (List.mem_of_mem_head? hc))

theorem levelDigits?_trim (s : Text) : levelDigits? (trim s) = levelDigits? s := by
  refine atColon_levelAt?.search_trim (fun s t ht => Option.ext fun digits => ?_) s
  rw [levelAt?_eq_some_iff, levelAt?_eq_some_iff, levelAt_append_iff ht]

theorem readLevel_eq_error_iff {o : Overlong} :
    readLevel s = .error o ↔
      ∃ ds, levelDigits? s = some ds ∧ Overlong.limit < ds.length ∧ o = ⟨ds.length⟩ := by
  rw [readLevel]
  cases levelDigits? s
  case none    => simp
  case some ds => by_cases hl : Overlong.limit < ds.length <;> simp [hl, eq_comm]

end Levels

section Reading

theorem spells_iff :
    k.Spells link description rest ↔ isMarked k ∧ (∃ l, Link.ofText link = .ok l) ∧
      ∃ v, k.value = some v ∧ brackets? (trim v) = some (link, description, rest) := by
  have hk : isMarked k ↔ lower k.key = "#+transclude:".toList := beq_iff_eq
  rw [hk, Link.exists_ofText_iff]
  simp only [brackets?_eq_some_iff]
  constructor
  case mp =>
    rintro ⟨hk, ⟨v, hv, hs⟩, hn, hl, hd, ht⟩
    exact ⟨hk, ht, v, hv, hs, hn, hl, hd⟩
  case mpr =>
    rintro ⟨hk, ht, v, hv, hs, hn, hl, hd⟩
    exact ⟨hk, ⟨v, hv, hs⟩, hn, hl, hd, ht⟩

theorem spells_unique {link' rest' : Text} {description' : Option Text}
    (h : k.Spells link description rest) (h' : k.Spells link' description' rest') :
    link' = link ∧ description' = description ∧ rest' = rest := by
  obtain ⟨-, -, v, hv, hs⟩ := spells_iff.mp h
  obtain ⟨-, -, v', hv', hs'⟩ := spells_iff.mp h'
  cases hv.symm.trans hv'
  cases hs.symm.trans hs'
  exact ⟨rfl, rfl, rfl⟩

-- All that is read off the text behind the brackets.
def ofParts (target : Link) (description : Option Text) (props : Text) : Except Overlong Directive :=
  (readLevel props).map fun level =>
    { link := target, description, level
      noFirstHeading := hasFlag ":no-first-heading".toList props
      onlyContents := hasFlag ":only-contents".toList props
      excluded := (excludedText? props).elim [] words }

theorem ofParts_eq_ok {target : Link} {d : Directive} (h : ofParts target description s = .ok d) :
    d.link = target ∧ d.description = description := by
  rw [ofParts] at h
  cases hl : readLevel s <;> rw [hl] at h <;> cases h
  exact ⟨rfl, rfl⟩

theorem ofParts_eq_error_iff {target : Link} {o : Overlong} :
    ofParts target description s = .error o ↔ readLevel s = .error o := by
  rw [ofParts]
  cases readLevel s <;> simp [Except.map]

theorem ofKeyword_of_spells (h : k.Spells link description rest) :
    ∃ l, Link.ofText link = .ok l ∧ ofKeyword k = (ofParts l description (trim rest)).map some := by
  obtain ⟨hk, ⟨l, hl⟩, v, hv, hs⟩ := spells_iff.mp h
  refine ⟨l, hl, ?_⟩
  simp only [ofKeyword, hk, hv, hs, hl, ofParts, Option.getD_some, Bool.not_true, Bool.false_eq_true,
    if_false]
  cases readLevel (trim rest) <;> rfl

theorem ofKeyword_of_not_spells (h : ∀ link description rest, ¬k.Spells link description rest) :
    ofKeyword k = .ok none := by
  rw [ofKeyword]
  split
  case isTrue => rfl
  case isFalse hk =>
    split
    case h_1 => rfl
    case h_2 link description rest hs =>
      split
      case h_1 => rfl
      case h_2 l hl =>
        refine (h link description rest (spells_iff.mpr ⟨by simpa using hk, ⟨l, hl⟩, ?_⟩)).elim
        cases hv : k.value
        case none =>
          rw [hv] at hs
          cases hs
        case some v => exact ⟨v, rfl, by rwa [hv] at hs⟩

-- A keyword that is written as a directive is one, whatever stands behind its brackets, unless the
-- first level there has too many digits.
theorem ofKeyword_grammar (k : Keyword) :
    (ofKeyword k ≠ .ok none ↔ ∃ link description rest, k.Spells link description rest) ∧
    ∀ link description rest, k.Spells link description rest →
      (∀ link' description' rest', k.Spells link' description' rest' →
        link' = link ∧ description' = description ∧ rest' = rest) ∧
      (∀ d, ofKeyword k = .ok (some d) → Link.ofText link = .ok d.link ∧ d.description = description) ∧
      ∀ o, ofKeyword k = .error o ↔
        ∃ digits, FirstLevel rest digits ∧ Overlong.limit < digits.length ∧ o = ⟨digits.length⟩ := by
  refine ⟨⟨fun hn => ?_, ?_⟩, fun link description rest h => ⟨fun _ _ _ => spells_unique h, ?_, ?_⟩⟩
  · by_contra hs
    push Not at hs
    exact hn (ofKeyword_of_not_spells hs)
  · rintro ⟨link, description, rest, h⟩
    obtain ⟨l, _, he⟩ := ofKeyword_of_spells h
    rw [he]
    cases ofParts l description (trim rest) <;> rintro ⟨⟩
  · intro d hd
    obtain ⟨l, hl, he⟩ := ofKeyword_of_spells h
    rw [he] at hd
    cases hp : ofParts l description (trim rest) <;> rw [hp] at hd <;> cases hd
    obtain ⟨rfl, rfl⟩ := ofParts_eq_ok hp
    exact ⟨hl, rfl⟩
  · intro o
    obtain ⟨l, _, he⟩ := ofKeyword_of_spells h
    have hm : (ofParts l description (trim rest)).map some = .error o ↔
        ofParts l description (trim rest) = .error o := by
      cases ofParts l description (trim rest) <;> simp [Except.map]
    rw [he, hm, ofParts_eq_error_iff, readLevel_eq_error_iff, levelDigits?_trim]
    simp only [levelDigits?_eq_some_iff]

theorem ofKeyword_grammar_labelled :
    let k : Keyword := ⟨"#+Transclude:".toList, some " [[Notes.org::*B][c]] :level 2".toList⟩
    k.Spells "Notes.org::*B".toList (some "c".toList) " :level 2".toList ∧ ofKeyword k ≠ .ok none ∧
      ∀ o, ofKeyword k ≠ .error o := by
  intro k
  have hs : k.Spells "Notes.org::*B".toList (some "c".toList) " :level 2".toList :=
    spells_iff.mpr ⟨by decide +kernel, ⟨⟨none, "Notes.org".toList, some "*B".toList⟩, by decide +kernel⟩,
      _, rfl, by decide +kernel⟩
  have ⟨ha, hg⟩ := ofKeyword_grammar k
  refine ⟨hs, ha.mpr ⟨_, _, _, hs⟩, fun o ho => ?_⟩
  obtain ⟨digits, hd, hl, -⟩ := ((hg _ _ _ hs).right.right o).mp ho
  have he : levelDigits? " :level 2".toList = some "2".toList := by decide +kernel
  cases he.symm.trans (levelDigits?_eq_some_iff.mpr hd)
  exact absurd hl (by decide)

end Reading

end Directive

end Transclusion
