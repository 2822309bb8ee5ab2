import Transclusion.Proofs.Outline.Headlines

namespace Transclusion.Headline

open Text

variable {h : Headline} {l r s t w : Text} {ws : List Text} {c : Char}

section Words

-- Blanks may be inside it only.
structure IsPart (w : Text) : Prop where
  ne_nil    : w ≠ []
  trim      : trim w = w
  noNewline : '\n' ∉ w

theorem IsPart.of_isSolid (hn : w ≠ []) (hs : IsSolid w) : IsPart w where
  ne_nil := hn
  trim := trim_eq_self_iff.mpr
    ⟨fun c hc => hs c (List.mem_of_mem_head? hc), fun c hc => hs c (List.mem_of_mem_getLast? hc)⟩
  noNewline hm := by cases hs _ hm

theorem IsPart.head? (hw : IsPart w) : ∀ c ∈ w.head?, isBlank c = false :=
  (trim_eq_self_iff.mp hw.trim).left

theorem IsPart.append (hw : IsPart w) (ht : IsPart t) : IsPart (w ++ ' ' :: t) where
  ne_nil := List.append_ne_nil_of_left_ne_nil hw.ne_nil _
  trim := by
    refine trim_eq_self_iff.mpr ⟨fun c hc => hw.head? c ?_, fun c hc => ?_⟩
    · rwa [List.head?_append_of_ne_nil _ hw.ne_nil] at hc
    · rw [List.getLast?_append_of_ne_nil _ (List.cons_ne_nil _ _), List.getLast?_cons_of_ne_nil ht.ne_nil] at hc
      exact (trim_eq_self_iff.mp ht.trim).right c hc
  noNewline := by simp [hw.noNewline, ht.noNewline]

-- The words behind a word.
def behind (ws : List Text) : Text :=
  ws.flatMap (' ' :: ·)

theorem intercalate_cons (w : Text) (ws : List Text) :
    List.intercalate [' '] (w :: ws) = w ++ behind ws := by
  induction ws generalizing w
  case nil          => simp [behind]
  case cons v ws hi => rw [List.intercalate_cons_cons, hi, behind, behind, List.flatMap_cons]; simp

theorem behind_eq (hn : ws ≠ []) : behind ws = ' ' :: List.intercalate [' '] ws := by
  obtain ⟨w, ws, rfl⟩ := List.exists_cons_of_ne_nil hn
  rw [intercalate_cons, behind, List.flatMap_cons, List.cons_append, behind]

theorem head?_behind (ws : List Text) : (behind ws).head?.all isBlank := by
  cases ws
  case nil       => rfl
  case cons w ws => exact rfl

theorem isPart_intercalate (h : ∀ w ∈ ws, IsPart w) (hn : ws ≠ []) : IsPart (List.intercalate [' '] ws) := by
  induction ws
  case nil => cases hn rfl
  case cons w ws hi =>
    obtain ⟨hw, hs⟩ := List.forall_mem_cons.mp h
    by_cases he : ws = []
    case pos => rwa [he, List.intercalate_singleton]
    case neg =>
      rw [intercalate_cons, behind_eq he]
      exact hw.append (hi hs he)

theorem trimStart_behind (h : ∀ w ∈ ws, IsPart w) :
    trimStart (behind ws) = List.intercalate [' '] ws := by
  by_cases hn : ws = []
  case pos => rw [hn]; rfl
  case neg =>
    rw [behind_eq hn, trimStart_cons_of_isBlank rfl]
    exact trimStart_of_head? (isPart_intercalate h hn).head?

end Words

section Starts

theorem isSolid_of_mem_todoWords : ∀ w ∈ todoWords, IsSolid w := by
  decide

theorem startsTodo_append (hs : s.head?.all isBlank) : StartsTodo (t ++ s) ↔ StartsTodo t := by
  constructor
  case mp =>
    rintro ⟨w, hw, r, he, hr⟩
    obtain ⟨u, rfl, rfl⟩ := exists_of_append_eq_append (isSolid_of_mem_todoWords w hw) hs he
    refine ⟨w, hw, u, rfl, ?_⟩
    cases u
    case nil      => rfl
    case cons c u => exact hr
  case mpr =>
    rintro ⟨w, hw, r, rfl, hr⟩
    refine ⟨w, hw, r ++ s, List.append_assoc .., ?_⟩
    cases r
    case nil      => exact hs
    case cons c u => exact hr

theorem StartsPriority.append (h : StartsPriority t) (s : Text) : StartsPriority (t ++ s) := by
  obtain ⟨c, r, rfl, hc⟩ := h
  exact ⟨c, r ++ s, rfl, hc⟩

theorem not_startsTodo_cons (h : ∀ w ∈ todoWords, w.head? ≠ some c) : ¬StartsTodo (c :: s) := by
  rintro ⟨w, hw, t, he, _⟩
  have hc := h w hw
  cases w
  case nil      => exact absurd hw (by decide)
  case cons a w => exact hc (congrArg some (List.cons.inj he).left.symm)

theorem not_isBlank_of_isAlphanum (h : c.isAlphanum) : isBlank c = false :=
  not_isBlank_of (fun _ => forall_isBlank (p := (·.isAlphanum = false)) (by decide)) h

def priorityWord (p : Text) : Text :=
  "[#".toList ++ p ++ "]".toList

theorem isSolid_priorityWord (hc : c.isAlphanum) : IsSolid (priorityWord [c]) := by
  have hs : IsSolid "[#".toList ∧ IsSolid "]".toList := by decide
  exact List.forall_mem_append.mpr ⟨List.forall_mem_append.mpr ⟨hs.left,
    List.forall_mem_singleton.mpr (not_isBlank_of_isAlphanum hc)⟩, hs.right⟩

theorem startsPriority_append (hs : s.head?.all isBlank) : StartsPriority (t ++ s) ↔ StartsPriority t := by
  refine ⟨?_, (·.append s)⟩
  rintro ⟨c, r, he, hc⟩
  have he : t ++ s = priorityWord [c] ++ r := he
  obtain ⟨u, rfl, _⟩ := exists_of_append_eq_append (isSolid_priorityWord hc) hs he
  exact ⟨c, u, rfl, hc⟩

theorem startsTodo_intercalate :
    StartsTodo (List.intercalate [' '] ws) ↔ ∃ w ∈ ws.head?, StartsTodo w := by
  cases ws
  case nil =>
    simp only [List.head?_nil, Option.not_mem_none, false_and, exists_false, iff_false]
    rintro ⟨w, hw, r, he, _⟩
    cases (List.append_eq_nil_iff.mp he.symm).left
    exact absurd hw (by decide)
  case cons w ws =>
    rw [intercalate_cons, startsTodo_append (head?_behind ws)]
    simp

theorem startsPriority_intercalate :
    StartsPriority (List.intercalate [' '] ws) ↔ ∃ w ∈ ws.head?, StartsPriority w := by
  cases ws
  case nil         => simp [StartsPriority]
  case cons w ws =>
    rw [intercalate_cons, startsPriority_append (head?_behind ws)]
    simp

end Starts

-- The parts as a reader leaves them.
structure IsTidy (h : Headline) : Prop where
  stars     : 0 < h.stars
  todo      : ∀ w ∈ h.todo, w ∈ todoWords
  priority  : ∀ p ∈ h.priority, ∃ c, p = [c] ∧ c.isAlphanum
  title     : ∀ t ∈ h.title, IsPart t
  tags      : ∀ t ∈ h.tags, isTag t
  afterTodo : h.todo ≠ none → h.priority = none → ∀ t ∈ h.title, ¬StartsPriority t
  untagged  : h.tags = [] → ∀ t ∈ h.title, takeTags t = (t, [])

-- Nothing but the stars.
def IsBare (h : Headline) : Prop :=
  h.todo = none ∧ h.priority = none ∧ h.title = none ∧ h.tags = []

-- The title starts as a TODO word or a priority does, and neither stands before it.
def IsShadowed (h : Headline) : Prop :=
  h.todo = none ∧ h.priority = none ∧ ∃ t ∈ h.title, StartsTodo t ∨ StartsPriority t

section Reading

-- Without blanks at its start, the text ends in the same word.
theorem takeTags_trimStart (h : (takeTags s).2 = []) :
    (takeTags s).1 = s ∧ takeTags (trimStart s) = (trimStart s, []) := by
  obtain ⟨front, w, rfl, hw, hf⟩ := exists_lastWord s
  have hg : ∀ c ∈ (trimStart front).getLast?, isBlank c :=
    forall_getLast?_of_suffix hf (List.dropWhile_suffix isBlank)
  rw [trimStart_append_of_isSolid hw, takeTags_append hw hg]
  rw [takeTags_append hw hf] at h ⊢
  cases ht : tags? w
  case none    => exact ⟨rfl, rfl⟩
  case some ts =>
    rw [ht] at h
    exact absurd h (spec_of_tags? ht).left

theorem isTidy_ofBody {n : Nat} (hn : 0 < n) (hs : ∀ c ∈ s.getLast?, isBlank c = false) (hb : '\n' ∉ s) :
    (ofBody n s).IsTidy := by
  have hu := (takePriority_suffix (takeTodo s).2).trans (takeTodo_suffix s)
  have hp := takeTags_prefix (takePriority (takeTodo s).2).2
  rw [ofBody_eq]
  refine ⟨hn, mem_todoWords_of_mem_takeTodo s, isAlphanum_of_mem_takePriority _, ?title,
    isTag_of_mem_takeTags _, ?afterTodo, ?untagged⟩ <;> dsimp only
  case title =>
    intro t ht
    obtain ⟨he, hn⟩ := given_eq_some_iff.mp ht
    cases he
    refine ⟨hn, trim_trim _, fun hm => hb ?_⟩
    exact hu.subset (hp.subset ((trim_sublist _).subset hm))
  case afterTodo =>
    intro hw hn t ht hl
    obtain ⟨he, _⟩ := given_eq_some_iff.mp ht
    obtain ⟨hr, hl'⟩ := takePriority_of_eq_none hn
    cases he
    rw [hr] at hl hp
    have ht := trim_prefix (trimStart_takeTodo hw) hp
    obtain ⟨r, hr⟩ := ht.trans hp
    exact hl' (hr ▸ hl.append r)
  case untagged =>
    intro hg t ht
    obtain ⟨he, _⟩ := given_eq_some_iff.mp ht
    obtain ⟨hf, hl⟩ := takeTags_trimStart hg
    rw [hf] at he
    cases he
    rwa [trim, trimEnd_of_getLast?]
    exact forall_getLast?_of_suffix hs ((List.dropWhile_suffix _).trans hu)

theorem isTidy_of_ofLine? (hl : ofLine? l = some h) : h.IsTidy := by
  obtain ⟨n, _, r, hn, _, _, _, hb, rfl⟩ := exists_parts_of_ofLine? hl
  exact isTidy_ofBody hn (getLast?_trimEnd r) hb

end Reading

section Printing

-- Tags as the last word, if there are any.
def tagWords : List Text → List Text
  | [] => []
  | ts => [tagWord ts]

-- What stands behind the priority, behind the TODO word, and behind the stars.
def named (h : Headline) : List Text :=
  h.title.toList ++ tagWords h.tags

def ranked (h : Headline) : List Text :=
  h.priority.toList.map priorityWord ++ h.named

def words (h : Headline) : List Text :=
  h.todo.toList ++ h.ranked

theorem tagWords_of_ne_nil {ts : List Text} (hn : ts ≠ []) : tagWords ts = [tagWord ts] := by
  cases ts
  case nil  => cases hn rfl
  case cons => rfl

theorem tagMarkup_eq (ts : List Text) : tagMarkup ts = behind (tagWords ts) := by
  cases ts <;> simp [tagMarkup, tagWords, behind, tagWord]

namespace IsTidy

theorem isPart_todo (ht : h.IsTidy) : ∀ w ∈ h.todo, IsPart w := by
  intro w hw
  have hm := ht.todo w hw
  exact .of_isSolid (by rintro rfl; revert hm; decide) (isSolid_of_mem_todoWords w hm)

theorem isPart_priority (ht : h.IsTidy) : ∀ p ∈ h.priority, p ≠ [] ∧ IsPart (priorityWord p) := by
  intro p hp
  obtain ⟨c, rfl, hc⟩ := ht.priority p hp
  exact ⟨List.cons_ne_nil _ _, .of_isSolid (List.cons_ne_nil _ _) (isSolid_priorityWord hc)⟩

theorem isPart_words (ht : h.IsTidy) : ∀ w ∈ h.words, IsPart w := by
  simp only [words, ranked, named, List.forall_mem_append, Option.mem_toList, List.forall_mem_map]
  refine ⟨ht.isPart_todo, fun p hp => (ht.isPart_priority p hp).right, ht.title, ?_⟩
  have hs := isSolid_tagWord ht.tags
  by_cases hg : h.tags = []
  case pos => simp [hg, tagWords]
  case neg =>
    rw [tagWords_of_ne_nil hg]
    exact List.forall_mem_singleton.mpr (.of_isSolid (List.cons_ne_nil _ _) hs)

theorem line_eq (ht : h.IsTidy) : h.line = List.replicate h.stars '*' ++ behind h.words := by
  have h₁ := given_eq_self fun w hw => (ht.isPart_todo w hw).ne_nil
  have h₂ := given_eq_self fun p hp => (ht.isPart_priority p hp).left
  have h₃ := given_eq_self fun t ht' => (ht.title t ht').ne_nil
  have hw : (fun p => "[#".toList ++ p ++ "]".toList) = priorityWord := rfl
  rw [line, parts, h₁, h₂, h₃, hw, intercalate_cons, tagMarkup_eq]
  simp [behind, words, ranked, named]

-- The printed line is a headline again, whatever its words are taken for.
theorem ofLine?_line (ht : h.IsTidy) (hn : h.words ≠ []) :
    ofLine? h.line = some (ofBody h.stars (List.intercalate [' '] h.words)) := by
  have hp := isPart_intercalate ht.isPart_words hn
  have he := trimEnd_of_getLast? (trim_eq_self_iff.mp hp.trim).right
  have hm : IsMargin [' '] := ⟨List.cons_ne_nil _ _, List.forall_mem_singleton.mpr rfl⟩
  have hr : ∀ c ∈ (List.intercalate [' '] h.words).head?, isMarginChar c = false := by
    intro c hc
    have hb := hp.head? c hc
    by_contra hm
    cases hb.symm.trans (isBlank_of_isMarginChar (by simpa using hm))
  have hl := ofLine?_append ht.stars hm hr (by rw [he]; exact hp.noNewline)
  rwa [he, List.singleton_append, ←behind_eq hn, ←ht.line_eq] at hl

theorem takeTags_named (ht : h.IsTidy) :
    given (some (trim (takeTags (List.intercalate [' '] h.named)).1)) = h.title ∧
      (takeTags (List.intercalate [' '] h.named)).2 = h.tags := by
  rw [named]
  by_cases hg : h.tags = []
  case pos =>
    rw [hg, tagWords, List.append_nil]
    cases hn : h.title
    case none => exact ⟨rfl, rfl⟩
    case some t =>
      rw [Option.toList_some, List.intercalate_singleton, ht.untagged hg t hn, (ht.title t hn).trim]
      exact ⟨given_eq_some_iff.mpr ⟨rfl, (ht.title t hn).ne_nil⟩, rfl⟩
  case neg =>
    rw [tagWords_of_ne_nil hg]
    cases hn : h.title
    case none =>
      have he : takeTags ([] ++ tagWord h.tags) = ([], h.tags) := takeTags_append_tagWord hg ht.tags (by simp)
      rw [Option.toList_none, List.nil_append, List.intercalate_singleton, ←List.nil_append (tagWord _), he]
      exact ⟨rfl, rfl⟩
    case some t =>
      have hf : ∀ c ∈ (t ++ [' ']).getLast?, isBlank c := by
        rw [List.getLast?_concat]
        rintro _ ⟨⟩
        rfl
      have hb := trim_append (s := []) (t := [' ']) rfl (by decide) t
      rw [List.nil_append, (ht.title t hn).trim] at hb
      rw [Option.toList_some, List.singleton_append, List.intercalate_cons_cons, List.intercalate_singleton,
        takeTags_append_tagWord hg ht.tags hf, hb]
      exact ⟨given_eq_some_iff.mpr ⟨rfl, (ht.title t hn).ne_nil⟩, rfl⟩

theorem mem_head?_named : ∀ w ∈ h.named.head?, w ∈ h.title ∨ ∃ s, w = ':' :: s := by
  intro w hw
  rw [named] at hw
  cases hn : h.title <;> rw [hn] at hw
  case some t => exact .inl hw
  case none =>
    by_cases hg : h.tags = []
    case pos => simp [hg, tagWords] at hw
    case neg =>
      rw [tagWords_of_ne_nil hg] at hw
      cases hw
      exact .inr ⟨_, rfl⟩

theorem takePriority_ranked (ht : h.IsTidy)
    (hn : h.priority = none → ∀ t ∈ h.title, ¬StartsPriority t) :
    takePriority (List.intercalate [' '] h.ranked) = (h.priority, List.intercalate [' '] h.named) := by
  have hp : ∀ w ∈ h.named, IsPart w := fun w hw =>
    ht.isPart_words w (List.mem_append_right _ (List.mem_append_right _ hw))
  rw [ranked]
  cases he : h.priority
  case none =>
    refine takePriority_of_not fun hs => ?_
    obtain ⟨w, hw, hs⟩ := startsPriority_intercalate.mp hs
    obtain hw | ⟨s, rfl⟩ := mem_head?_named w hw
    · exact hn he w hw hs
    · obtain ⟨_, _, hc, _⟩ := hs
      cases hc
  case some p =>
    obtain ⟨c, rfl, hc⟩ := ht.priority p he
    rw [Option.toList_some, List.map_singleton, List.singleton_append, intercalate_cons, ←trimStart_behind hp]
    exact takePriority_cons hc _

theorem takeTodo_words (ht : h.IsTidy)
    (hn : h.todo = none → h.priority = none → ∀ t ∈ h.title, ¬StartsTodo t) :
    takeTodo (List.intercalate [' '] h.words) = (h.todo, List.intercalate [' '] h.ranked) := by
  have hp : ∀ w ∈ h.ranked, IsPart w := fun w hw => ht.isPart_words w (List.mem_append_right _ hw)
  rw [words]
  cases he : h.todo
  case some w =>
    rw [Option.toList_some, List.singleton_append, intercalate_cons, ←trimStart_behind hp]
    exact takeTodo_append (ht.todo w he) (head?_behind _)
  case none =>
    refine takeTodo_of_not fun hs => ?_
    obtain ⟨w, hw, hs⟩ := startsTodo_intercalate.mp hs
    rw [Option.toList_none, List.nil_append, ranked] at hw
    cases hq : h.priority <;> rw [hq] at hw
    case some p =>
      cases hw
      exact not_startsTodo_cons (by decide) hs
    case none =>
      obtain hw | ⟨s, rfl⟩ := mem_head?_named w hw
      · exact hn he hq w hw hs
      · exact not_startsTodo_cons (by decide) hs

theorem ofBody_words (ht : h.IsTidy) (hn : ¬h.IsShadowed) :
    ofBody h.stars (List.intercalate [' '] h.words) = h := by
  have hp : h.priority = none → ∀ t ∈ h.title, ¬StartsPriority t := fun hp t hm hs => by
    by_cases hw : h.todo = none
    case pos => exact hn ⟨hw, hp, t, hm, .inr hs⟩
    case neg => exact ht.afterTodo hw hp t hm hs
  have hr := ht.takePriority_ranked hp
  have hw := ht.takeTodo_words fun hw hp t hm hs => hn ⟨hw, hp, t, hm, .inl hs⟩
  have ⟨hn, hg⟩ := ht.takeTags_named
  rw [ofBody_eq, hw, hr, hn, hg]

end IsTidy

theorem words_eq_nil_iff : h.words = [] ↔ h.IsBare := by
  simp only [words, ranked, named, List.append_eq_nil_iff, Option.toList_eq_nil_iff, List.map_eq_nil_iff, IsBare]
  by_cases hg : h.tags = []
  case pos => simp [hg, tagWords]
  case neg => simp [hg, tagWords_of_ne_nil hg]

theorem IsShadowed.ofBody_words (hs : h.IsShadowed) :
    ofBody h.stars (List.intercalate [' '] h.words) ≠ h := by
  obtain ⟨hw, hp, t, hm, hs⟩ := hs
  have ht : h.words = t :: tagWords h.tags := by
    rw [words, ranked, named, hw, hp, Option.mem_def.mp hm]
    rfl
  intro he
  rw [ofBody_eq] at he
  have hw := (congrArg Headline.todo he).trans hw
  have hp := (congrArg Headline.priority he).trans hp
  obtain ⟨he, hnw⟩ | ⟨_, _, _, _, he⟩ := takeTodo_cases (List.intercalate [' '] h.words)
  case inr => cases (congrArg Prod.fst he).symm.trans hw
  case inl =>
    rw [he] at hp
    have hnp := (takePriority_of_eq_none hp).right
    rw [startsTodo_intercalate, ht] at hnw
    rw [startsPriority_intercalate, ht] at hnp
    exact hs.elim (fun hs => hnw ⟨t, rfl, hs⟩) fun hs => hnp ⟨t, rfl, hs⟩

theorem IsBare.ofLine?_line (hb : h.IsBare) : ofLine? h.line = none := by
  obtain ⟨hw, hp, ht, hg⟩ := hb
  have hl : h.line = List.replicate h.stars '*' := by
    simp [line, parts, hw, hp, ht, hg, given, tagMarkup]
  rw [hl, ofLine?_eq, List.dropWhile_replicate]
  simp

-- A headline prints as its `line` and the end of the line.
theorem ofLine?_line_iff (hl : ofLine? l = some h) :
    (ofLine? h.line = some h ↔ ¬h.IsBare ∧ ¬h.IsShadowed) ∧ (h.IsBare → ofLine? h.line = none) := by
  have ht := isTidy_of_ofLine? hl
  refine ⟨⟨fun hr => ⟨fun hb => ?_, fun hs => ?_⟩, fun ⟨hb, hs⟩ => ?_⟩, IsBare.ofLine?_line⟩
  · cases hb.ofLine?_line.symm.trans hr
  · obtain ⟨_, _, t, hm, _⟩ := id hs
    have hb : ¬h.IsBare := fun hb => by cases hb.right.right.left.symm.trans hm
    rw [ht.ofLine?_line (mt words_eq_nil_iff.mp hb)] at hr
    exact hs.ofBody_words (Option.some.inj hr)
  · rw [ht.ofLine?_line (mt words_eq_nil_iff.mp hb), ht.ofBody_words hs]

-- All parts; a no-break space in front of a TODO word; nothing but the stars.
theorem ofLine?_line_iff_walks :
    let all : Headline := ⟨2, some "TODO".toList, some ['A'], some "[#B] Walk".toList, ["out".toList]⟩
    let hidden : Headline := { stars := 1, title := some "TODO Walk".toList }
    let stars : Headline := { stars := 3 }
    (ofLine? "** TODO\t[#A]  [#B] Walk :out:".toList = some all ∧ ofLine? all.line = some all) ∧
      (ofLine? "* \u00a0TODO Walk".toList = some hidden ∧ ofLine? hidden.line ≠ some hidden) ∧
        ofLine? "*** ".toList = some stars ∧ ofLine? stars.line = none := by
  intro all hidden stars
  have ha : ofLine? "** TODO\t[#A]  [#B] Walk :out:".toList = some all := by decide +kernel
  have hh : ofLine? "* \u00a0TODO Walk".toList = some hidden := by decide +kernel
  have hs : ofLine? "*** ".toList = some stars := by decide +kernel
  refine ⟨⟨ha, ?_⟩, ⟨hh, fun hr => ?_⟩, hs, ?_⟩
  · have hw : all.todo ≠ none := Option.some_ne_none _
    exact (ofLine?_line_iff ha).left.mpr ⟨fun hb => hw hb.left, fun hs => hw hs.left⟩
  · have hw : StartsTodo "TODO Walk".toList := ⟨_, List.mem_cons_self, " Walk".toList, rfl, rfl⟩
    exact ((ofLine?_line_iff hh).left.mp hr).right ⟨rfl, rfl, _, rfl, .inl hw⟩
  · exact (ofLine?_line_iff hs).right ⟨rfl, rfl, rfl, rfl⟩

end Printing

end Transclusion.Headline
