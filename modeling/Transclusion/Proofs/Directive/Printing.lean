import Transclusion.Proofs.Directive.Grammar
import Transclusion.Proofs.Text.Digits

namespace Transclusion.Directive

open Text

-- A word that can stand in the list of elements.
def IsItem (item : Text) : Prop :=
  item ≠ [] ∧ IsSolid item ∧ ')' ∉ item ∧ ':' ∉ item

instance (item : Text) : Decidable (IsItem item) :=
  inferInstanceAs (Decidable (_ ∧ _ ∧ _ ∧ _))

-- What may be asked for behind the brackets.
inductive Property
  | noFirstHeading
  | onlyContents
  | level (n : Nat)
  | excluded (items : List Text)
  deriving DecidableEq

namespace Property

def name : Property → Text
  | noFirstHeading => ":no-first-heading".toList
  | onlyContents   => ":only-contents".toList
  | level _        => ":level".toList
  | excluded _     => ":exclude-elements".toList

-- What tells the names from one another.
def letter : Property → Char
  | noFirstHeading => 'n'
  | onlyContents   => 'o'
  | level _        => 'l'
  | excluded _     => 'e'

-- What is printed behind the name. The list of elements may be in quotes.
inductive HasArgument : Property → Text → Prop
  | noFirstHeading : HasArgument noFirstHeading []
  | onlyContents : HasArgument onlyContents []
  | level {gap : Text} (n : Nat) (hg : IsGap gap) : HasArgument (level n) (gap ++ ofNat n)
  | excluded {gap quote : Text} (items : List Text) (hg : IsGap gap) (hq : quote = [] ∨ quote = ['"']) :
    HasArgument (excluded items)
      (gap ++ (quote ++ '(' :: (List.intercalate [' '] items ++ ')' :: quote)))

-- The name may be in letters of any case.
def HasText (p : Property) (s : Text) : Prop :=
  ∃ name argument, s = name ++ argument ∧ name.map Char.toLower = p.name ∧ p.HasArgument argument

def IsPrintable : Property → Prop
  | excluded items => items ≠ [] ∧ ∀ item ∈ items, IsItem item
  | _              => True

end Property

-- Properties one after the other, with blanks in front of each.
inductive Listed : List Property → Text → Prop
  | nil : Listed [] []
  | cons {p : Property} {ps : List Property} {gap s rest : Text} (hg : IsGap gap) (hs : p.HasText s)
    (hr : Listed ps rest) : Listed (p :: ps) (gap ++ (s ++ rest))

-- What a directive can be asked for.
structure Choice where
  noFirstHeading : Bool := false
  onlyContents : Bool := false
  level : Option Nat := none
  excluded : List Text := []
  level_short : ∀ n ∈ level, (ofNat n).length ≤ Overlong.limit
  excluded_items : ∀ item ∈ excluded, IsItem item

def Choice.properties (c : Choice) : List Property :=
  (if c.noFirstHeading then [.noFirstHeading] else []) ++
    (if c.onlyContents then [.onlyContents] else []) ++
    c.level.toList.map .level ++
    (if c.excluded = [] then [] else [.excluded c.excluded])

theorem Choice.isPrintable (c : Choice) : ∀ p ∈ c.properties, p.IsPrintable := by
  intro p hp
  cases p
  case excluded items =>
    have h : c.excluded ≠ [] ∧ items = c.excluded := by
      simpa [properties] using hp
    exact ⟨h.right ▸ h.left, h.right ▸ c.excluded_items⟩
  all_goals trivial

variable {α β : Type} {f : Text → Option α} {g : Property → Option β} {h : α → β}
  {p q : Property} {ps qs : List Property} {s t rest : Text}

section Shape

theorem IsGap.no_colon (hg : IsGap s) : ':' ∉ s := by
  intro hc
  cases List.all_eq_true.mp hg.right ':' hc

theorem IsGap.head?_isBlank (hg : IsGap s) (t : Text) : ∀ c ∈ (s ++ t).head?, isBlank c := by
  obtain ⟨c, s, rfl⟩ := List.exists_cons_of_ne_nil hg.left
  rintro _ ⟨⟩
  exact List.all_eq_true.mp hg.right _ List.mem_cons_self

namespace Property

theorem IsPrintable.intercalate_spec {items : List Text} (h : (excluded items).IsPrintable) :
    List.intercalate [' '] items ≠ [] ∧ ')' ∉ List.intercalate [' '] items ∧
      ':' ∉ List.intercalate [' '] items := by
  obtain ⟨hn, hi⟩ := h
  refine ⟨?_, not_mem_intercalate (by decide) fun item hm => (hi item hm).right.right.left,
    not_mem_intercalate (by decide) fun item hm => (hi item hm).right.right.right⟩
  obtain ⟨item, items, rfl⟩ := List.exists_cons_of_ne_nil hn
  have hne := (hi item List.mem_cons_self).left
  cases items
  case nil  => simpa using hne
  case cons => simp [List.intercalate_cons_cons]

theorem HasArgument.no_colon (hs : p.HasArgument s) (hp : p.IsPrintable) : ':' ∉ s := by
  cases hs
  case noFirstHeading => exact List.not_mem_nil
  case onlyContents   => exact List.not_mem_nil
  case level hg =>
    rw [List.mem_append, not_or]
    refine ⟨hg.no_colon, fun hc => ?_⟩
    cases isDigit_of_mem_ofNat hc
  case excluded hg hq =>
    rcases hq with rfl | rfl <;> simp [hg.no_colon, hp.intercalate_spec]

theorem HasArgument.getLast?_not_isBlank (hs : p.HasArgument s) :
    ∀ c ∈ s.getLast?, isBlank c = false := by
  cases hs
  case noFirstHeading => simp
  case onlyContents   => simp
  case level hg =>
    intro c hc
    rw [List.getLast?_append_of_ne_nil _ ofNat_ne_nil] at hc
    exact not_isBlank_of_isDigit (isDigit_of_char (isDigit_of_mem_ofNat (List.mem_of_getLast? hc)))
  case excluded hq =>
    rcases hq with rfl | rfl
    · simp [List.getLast?_append, List.getLast?_cons]; decide
    · simp [List.getLast?_append, List.getLast?_cons]; decide

-- A name has its only colon at the front and no blank, and `a` is its first letter.
def IsName (a : Char) (s : Text) : Prop :=
  s.take 2 = [':', a] ∧ ':' ∉ s.drop 1 ∧ IsSolid s

instance (a : Char) (s : Text) : Decidable (IsName a s) :=
  inferInstanceAs (Decidable (_ ∧ _ ∧ _))

theorem isName (p : Property) : IsName p.letter p.name := by
  cases p
  case noFirstHeading => exact (by decide +kernel : IsName 'n' ":no-first-heading".toList)
  case onlyContents   => exact (by decide +kernel : IsName 'o' ":only-contents".toList)
  case level          => exact (by decide +kernel : IsName 'l' ":level".toList)
  case excluded       => exact (by decide +kernel : IsName 'e' ":exclude-elements".toList)

theorem exists_name (p : Property) : ∃ m, p.name = ':' :: p.letter :: m ∧ ':' ∉ p.letter :: m := by
  obtain ⟨ht, hc, -⟩ := p.isName
  have he : p.name = ':' :: p.letter :: p.name.drop 2 := by
    conv_lhs => rw [←List.take_append_drop 2 p.name, ht]
    rfl
  refine ⟨_, he, ?_⟩
  rwa [he] at hc

namespace HasText

theorem ne_nil (hs : p.HasText s) : s ≠ [] := by
  obtain ⟨name, argument, rfl, hn, -⟩ := hs
  obtain ⟨m, hm, -⟩ := p.exists_name
  rintro h
  rw [(List.append_eq_nil_iff.mp h).left, hm] at hn
  cases hn

theorem no_colon (hs : p.HasText s) (hp : p.IsPrintable) : ∃ t, s = ':' :: t ∧ ':' ∉ t := by
  obtain ⟨name, argument, rfl, hn, ha⟩ := hs
  obtain ⟨m, hm, hc⟩ := p.exists_name
  obtain ⟨c, name, rfl, hl, hr⟩ := List.map_eq_cons_iff.mp (hn.trans hm)
  refine ⟨name ++ argument, by rw [eq_colon_of_toLower hl]; rfl, ?_⟩
  rw [List.mem_append, not_or]
  exact ⟨fun hx => hc (hr ▸ List.mem_map_of_mem hx), ha.no_colon hp⟩

theorem getLast?_not_isBlank (hs : p.HasText s) : ∀ c ∈ s.getLast?, isBlank c = false := by
  obtain ⟨name, argument, rfl, hn, ha⟩ := hs
  intro c hc
  rw [List.getLast?_append, Option.mem_def, Option.or_eq_some_iff] at hc
  rcases hc with hc | ⟨-, hc⟩
  case inl => exact ha.getLast?_not_isBlank c hc
  case inr =>
    have hm : c.toLower ∈ p.name := hn ▸ List.mem_map_of_mem (List.mem_of_getLast? hc)
    by_contra hb
    rw [Bool.not_eq_false] at hb
    rw [toLower_of_isBlank hb] at hm
    cases hb.symm.trans (p.isName.right.right c hm)

end HasText

end Property

namespace Listed

theorem head?_isBlank (hl : Listed ps t) : ∀ c ∈ t.head?, isBlank c := by
  cases hl
  case nil         => simp
  case cons hg _ _ => exact hg.head?_isBlank _

theorem getLast?_not_isBlank (hl : Listed ps t) : ∀ c ∈ t.getLast?, isBlank c = false := by
  induction hl
  case nil => simp
  case cons gap s rest hg hs hr hi =>
    intro c hc
    have hn : s ++ rest ≠ [] := by simp [hs.ne_nil]
    rw [List.getLast?_append_of_ne_nil _ hn, List.getLast?_append, Option.mem_def,
      Option.or_eq_some_iff] at hc
    rcases hc with hc | ⟨-, hc⟩
    · exact hi c hc
    · exact hs.getLast?_not_isBlank c hc

end Listed

end Shape

section Finding

namespace Property

theorem agree_letter (h : p.letter ≠ q.letter) : agree q.letter p.letter = false := by
  cases p <;> cases q
  all_goals
    first
    | exact absurd rfl h
    | simp only [letter]; decide +kernel

-- No name is found at another one.
theorem afterFold?_eq_none (hs : p.HasText s) (hn : p.letter ≠ q.letter) (rest : Text) :
    afterFold? q.name (s ++ rest) = none := by
  obtain ⟨name, argument, rfl, hm, -⟩ := hs
  obtain ⟨m, hp, -⟩ := p.exists_name
  obtain ⟨m', hq, -⟩ := q.exists_name
  obtain ⟨c, s, rfl, hc, hs⟩ := List.map_eq_cons_iff.mp (hm.trans hp)
  obtain ⟨x, s, rfl, hx, -⟩ := List.map_eq_cons_iff.mp hs
  have ha : agree q.letter x = false := by rw [←agree_toLower, hx, agree_letter hn]
  simp [hq, afterFold?, ha, eq_colon_of_toLower hc, agree_refl]

theorem argument?_eq_none (hs : p.HasText s) (hn : p.letter ≠ q.letter) (rest : Text) :
    argument? q.name (s ++ rest) = none := by
  rw [argument?, afterFold?_eq_none hs hn, Option.filter_none, Option.map_none]

def digits? : Property → Option Text
  | level n => some (ofNat n)
  | _       => none

def inner? : Property → Option Text
  | excluded items => some (List.intercalate [' '] items)
  | _              => none

end Property

-- At the text of any property, `f` finds what `g` tells of the property.
structure Finds (f : Text → Option α) (h : α → β) (g : Property → Option β) : Prop where
  atColon : AtColon f
  here {p : Property} {s rest : Text} (hp : p.IsPrintable) (hs : p.HasText s)
    (hr : ∀ c ∈ rest.head?, isBlank c) : (f (s ++ rest)).map h = g p

theorem finds_flag (hq : q = .noFirstHeading ∨ q = .onlyContents) :
    Finds (flagAt? q.name) (fun _ => ()) fun p => if p = q then some () else none where
  atColon := by
    obtain ⟨m, hm, -⟩ := q.exists_name
    exact hm ▸ atColon_flagAt? _
  here {p s rest} _ hs hr := by
    by_cases hn : p = q
    case neg =>
      have hl : p.letter ≠ q.letter := by
        rcases hq with rfl | rfl <;> cases p <;> simp_all [Property.letter]
      rw [flagAt?, Property.afterFold?_eq_none hs hl, Option.filter_none, Option.map_none, if_neg hn]
    case pos =>
      subst hn
      obtain ⟨name, argument, rfl, hm, ha⟩ := hs
      have he : argument = [] := by
        rcases hq with rfl | rfl <;> cases ha <;> rfl
      have hw : !rest.head?.any isWord := by
        cases hh : rest.head?
        case none   => rfl
        case some c => simp [isWord_of_isBlank (hr c hh)]
      rw [he, List.append_nil, flagAt?, afterFold?_of_toLower hm, Option.filter_some, if_pos hw, if_pos rfl]
      rfl

theorem finds_level : Finds levelAt? id Property.digits? where
  atColon := atColon_levelAt?
  here {p s rest} _ hs hr := by
    rw [Option.map_id, id]
    cases p
    case level n _ =>
      obtain ⟨name, _, rfl, hm, ha⟩ := hs
      cases ha
      case level gap hg =>
        have hd : ∀ c ∈ ofNat n, isDigit c := fun _ hc => isDigit_of_char (isDigit_of_mem_ofNat hc)
        exact levelAt?_eq_some_iff.mpr ⟨name, gap, rest, by simp, forall₂_agree_of_toLower hm, hg,
          ofNat_ne_nil, hd, fun c hc => isDigit_of_isBlank (hr c hc)⟩
    all_goals
      have ha : argument? ":level".toList (s ++ rest) = none :=
        Property.argument?_eq_none (q := .level 0) hs (by simp [Property.letter]) rest
      rw [levelAt?, ha]
      rfl

theorem finds_excluded : Finds excludedAt? id Property.inner? where
  atColon := atColon_excludedAt?
  here {p s rest} hp hs _ := by
    rw [Option.map_id, id]
    cases p
    case excluded items =>
      obtain ⟨name, _, rfl, hm, ha⟩ := hs
      cases ha
      case excluded gap quote hg hq =>
        have ⟨hn, hc, _⟩ := hp.intercalate_spec
        rw [Property.inner?]
        generalize List.intercalate [' '] items = inner at hn hc ⊢
        have ⟨ht, hd⟩ := (closed_iff (r := quote ++ rest)).mpr ⟨rfl, hc⟩
        have hh : ∀ c ∈ (quote ++ '(' :: (inner ++ ')' :: (quote ++ rest))).head?, isBlank c = false := by
          rcases hq with rfl | rfl <;> simp <;> decide
        simp only [excludedAt?, bind, Option.bind_eq_some_iff, argument?_eq_some_iff]
        refine ⟨_, ⟨name, gap, by simp, forall₂_agree_of_toLower hm, hg, hh⟩,
          inner ++ ')' :: (quote ++ rest), ?_, inner, ?_, ?_⟩
        · rcases hq with rfl | rfl <;> rfl
        · rw [ht, given_eq_some_iff, Option.some.injEq]
          exact ⟨rfl, hn⟩
        · rw [hd]
          rfl
    all_goals
      have ha : argument? ":exclude-elements".toList (s ++ rest) = none :=
        Property.argument?_eq_none (q := .excluded []) hs (by simp [Property.letter]) rest
      rw [excludedAt?, ha]
      rfl

theorem Listed.search_trim (hl : Listed ps t) (hf : AtColon f) : search f (trim t) = search f t := by
  obtain ⟨lead, trail, hb, ht, he⟩ := exists_trim t
  have hn : trail = [] := by
    by_contra hn
    have hm : trail.getLast hn ∈ t.getLast? := by
      rw [he, List.getLast?_append_of_ne_nil _ hn, List.getLast?_eq_some_getLast hn]
      rfl
    have hc := List.all_eq_true.mp ht _ (List.getLast_mem hn)
    cases hc.symm.trans (hl.getLast?_not_isBlank _ hm)
  rw [hn, List.append_nil] at he
  conv_rhs => rw [he, hf.search_of_isAllBlank hb]

-- The search meets one property after the other.
theorem Finds.search_listed (hf : Finds f h g) (hl : Listed ps t) (hp : ∀ p ∈ ps, p.IsPrintable) :
    (search f (trim t)).map h = ps.findSome? g := by
  rw [hl.search_trim hf.atColon]
  induction hl
  case nil => rfl
  case cons gap s rest hg hs hr hi =>
    obtain ⟨hp, hps⟩ := List.forall_mem_cons.mp hp
    have he := hf.here hp hs hr.head?_isBlank
    obtain ⟨u, rfl, hu⟩ := hs.no_colon hp
    rw [List.cons_append] at he
    rw [hf.atColon.search_append hg.no_colon, List.cons_append, search_cons,
      hf.atColon.search_append hu, List.findSome?_cons, ←he, ←hi hps]
    cases f (':' :: (u ++ rest)) <;> rfl

end Finding

section Choosing

variable {c : Choice}

theorem findSome?_of_perm (hp : ps.Perm qs) {o : Option β} (hq : qs.filterMap g = o.toList) :
    ps.findSome? g = o := by
  have hf := hp.filterMap g
  rw [hq] at hf
  rw [←List.head?_filterMap]
  cases o
  case none => rw [List.perm_nil.mp hf]; rfl
  case some => rw [List.perm_singleton.mp hf]; rfl

theorem isPrintable_of_perm (hp : ps.Perm c.properties) : ∀ p ∈ ps, p.IsPrintable :=
  fun p hm => c.isPrintable p (hp.mem_iff.mp hm)

theorem hasFlag_iff (hp : ps.Perm c.properties) (hl : Listed ps t)
    (hq : q = .noFirstHeading ∨ q = .onlyContents) :
    hasFlag q.name (trim t) ↔ q ∈ c.properties := by
  rw [hasFlag_eq_search, ←Option.isSome_map, (finds_flag hq).search_listed hl (isPrintable_of_perm hp),
    List.findSome?_isSome_iff, ←hp.mem_iff]
  simp

theorem levelDigits?_eq (hp : ps.Perm c.properties) (hl : Listed ps t) :
    levelDigits? (trim t) = c.level.map ofNat := by
  have ho : c.properties.filterMap Property.digits? = (c.level.map ofNat).toList := by
    rw [Choice.properties]
    cases c.level <;> split <;> split <;> split <;> rfl
  have hs := finds_level.search_listed hl (isPrintable_of_perm hp)
  rwa [Option.map_id, id, ←levelDigits?_eq_search, findSome?_of_perm hp ho] at hs

theorem excludedText?_eq (hp : ps.Perm c.properties) (hl : Listed ps t) :
    excludedText? (trim t) =
      if c.excluded = [] then none else some (List.intercalate [' '] c.excluded) := by
  have ho : c.properties.filterMap Property.inner? =
      (if c.excluded = [] then none else some (List.intercalate [' '] c.excluded)).toList := by
    rw [Choice.properties]
    cases c.level <;> split <;> split <;> split <;> rfl
  have hs := finds_excluded.search_listed hl (isPrintable_of_perm hp)
  rwa [Option.map_id, id, ←excludedText?_eq_search, findSome?_of_perm hp ho] at hs

theorem words_excludedText? (hp : ps.Perm c.properties) (hl : Listed ps t) :
    (excludedText? (trim t)).elim [] words = c.excluded := by
  rw [excludedText?_eq hp hl]
  split
  case isTrue h => exact h.symm
  case isFalse  =>
    exact words_intercalate fun item hm =>
      ⟨(c.excluded_items item hm).left, (c.excluded_items item hm).right.left⟩

theorem readLevel_eq (hp : ps.Perm c.properties) (hl : Listed ps t) :
    readLevel (trim t) = .ok (c.level.map (↑·)) := by
  rw [readLevel, levelDigits?_eq hp hl]
  cases hc : c.level
  case none   => rfl
  case some n => simp [numeral_ofNat, Nat.not_lt.mpr (c.level_short n hc)]

theorem ofParts_eq (hp : ps.Perm c.properties) (hl : Listed ps t) (target : Link) (description : Option Text) :
    ofParts target description (trim t) =
      .ok { link := target, description, noFirstHeading := c.noFirstHeading, onlyContents := c.onlyContents,
            level := c.level.map (↑·), excluded := c.excluded } := by
  have hn : hasFlag ":no-first-heading".toList (trim t) = c.noFirstHeading :=
    Bool.eq_iff_iff.mpr ((hasFlag_iff hp hl (.inl rfl)).trans (by simp [Choice.properties]))
  have ho : hasFlag ":only-contents".toList (trim t) = c.onlyContents :=
    Bool.eq_iff_iff.mpr ((hasFlag_iff hp hl (.inr rfl)).trans (by simp [Choice.properties]))
  rw [ofParts, hn, ho, readLevel_eq hp hl, words_excludedText? hp hl]
  rfl

end Choosing

section Printing

variable {k : Keyword} {raw lead tail trail : Text} {description : Option Text} {link : Link}

theorem trim_opening (hl : Listed ps tail) :
    trim (opening raw description ++ tail) = opening raw description ++ tail := by
  refine trim_eq_self_iff.mpr ⟨?_, fun c hc => ?_⟩
  · rintro _ ⟨⟩
    decide
  · rw [List.getLast?_append, Option.mem_def, Option.or_eq_some_iff] at hc
    rcases hc with hc | ⟨-, hc⟩
    case inl => exact hl.getLast?_not_isBlank c hc
    case inr =>
      rw [opening, List.getLast?_append_of_ne_nil _ (by decide)] at hc
      cases hc
      decide

-- What is printed for a directive is read as that directive, in whatever order the properties stand.
theorem ofKeyword_printed (c : Choice) (hk : lower k.key = "#+transclude:".toList)
    (hv : k.value = some (lead ++ (opening raw description ++ tail) ++ trail))
    (hlead : isAllBlank lead) (htrail : isAllBlank trail)
    (hr : ']' ∉ raw) (hl : Link.ofText raw = .ok link) (hd : ∀ d ∈ description, ']' ∉ d)
    (hp : ps.Perm c.properties) (ht : Listed ps tail) :
    ofKeyword k =
      .ok (some { link, description, noFirstHeading := c.noFirstHeading, onlyContents := c.onlyContents,
                  level := c.level.map (↑·), excluded := c.excluded }) := by
  have hs : k.Spells raw description tail := by
    refine ⟨hk, ⟨_, hv, ?_⟩, ?_, hr, hd, Link.exists_ofText_iff.mp ⟨link, hl⟩⟩
    · rw [trim_append hlead htrail, trim_opening ht]
    · rintro rfl
      cases hl
  obtain ⟨l, hl', he⟩ := ofKeyword_of_spells hs
  cases hl.symm.trans hl'
  rw [he, ofParts_eq hp ht]
  rfl

theorem ofKeyword_printed_shuffled :
    let k : Keyword := ⟨"#+Transclude:".toList,
      some " [[ID:a::b][c]] :LEVEL 2\t:exclude-Elements \"(table drawer)\" :only-contents\n".toList⟩
    ofKeyword k = .ok (some
      { link := ⟨some "id:".toList, "a".toList, some "b".toList⟩, description := some "c".toList
        onlyContents := true, level := some 2, excluded := ["table".toList, "drawer".toList] }) := by
  intro k
  have hg : IsGap " ".toList := by decide
  have hg' : IsGap "\t".toList := by decide
  let ps : List Property := [.level 2, .excluded ["table".toList, "drawer".toList], .onlyContents]
  let tail := " :LEVEL 2\t:exclude-Elements \"(table drawer)\" :only-contents".toList
  have ht : Listed ps tail :=
    .cons hg ⟨":LEVEL".toList, " 2".toList, rfl, by decide +kernel, .level 2 hg⟩
      (.cons hg' ⟨":exclude-Elements".toList, " \"(table drawer)\"".toList, rfl, by decide +kernel,
        .excluded ["table".toList, "drawer".toList] hg (.inr rfl)⟩
        (.cons hg ⟨":only-contents".toList, [], rfl, by decide +kernel, .onlyContents⟩ .nil))
  let c : Choice :=
    { onlyContents := true, level := some 2, excluded := ["table".toList, "drawer".toList]
      level_short := by decide, excluded_items := by decide +kernel }
  have hv : k.value =
      some (" ".toList ++ (opening "ID:a::b".toList (some "c".toList) ++ tail) ++ "\n".toList) := by
    decide +kernel
  have hl : Link.ofText "ID:a::b".toList = .ok ⟨some "id:".toList, "a".toList, some "b".toList⟩ := by
    decide +kernel
  exact ofKeyword_printed c (by decide +kernel) hv (by decide) (by decide) (by decide) hl (by decide)
    (by decide +kernel) ht

end Printing

end Transclusion.Directive
