import Transclusion.Proofs.Outline.Nesting

namespace Transclusion

open Text

variable {es fs : List Entry} {ls : List Text} {x : Headline}

-- Nothing at all, or a headline and what follows it.
def StartsSection (es : List Entry) : Prop :=
  ∀ e ∈ es.head?, ∃ h, e = .heading h

-- Each headline prints as a line that reads as itself.
def HeadingsReread (es : List Entry) : Prop :=
  ∀ x ∈ es.filterMap Entry.heading?, Headline.ofLine? x.line = some x

theorem HeadingsReread.of_subset (h : HeadingsReread es) (hs : fs ⊆ es) : HeadingsReread fs :=
  fun x hx => h x (List.filterMap_subset _ hs hx)

section Cutting

theorem append_cons_of_not_mem {α : Type} {as bs cs ds : List α} {a : α} (ha : a ∉ as)
    (h : as ++ bs = cs ++ a :: ds) : ∃ cs', cs = as ++ cs' ∧ bs = cs' ++ a :: ds := by
  rcases List.append_eq_append_iff.mp h with ⟨cs', hc, hb⟩ | ⟨as', rfl, hd⟩
  · exact ⟨cs', hc, hb⟩
  · cases as'
    case nil    => exact ⟨[], by simp, hd.symm⟩
    case cons a' as' =>
      cases hd
      simp at ha

namespace Mode

theorem heading_not_mem_rest (m : Mode) : .heading x ∉ m.rest := by
  cases m <;> simp [rest]

-- A line that reads as a headline comes after all that was held back.
theorem read_cases (m : Mode) (l : Text) :
    (∀ x, .heading x ∉ (m.read l).2) ∨
      ∃ x, Headline.ofLine? (bare l) = some x ∧ m.read l = (plain, m.rest ++ [.heading x]) := by
  have hp : (∀ x, .heading x ∉ (readPlain l).2) ∨
      ∃ x, Headline.ofLine? (bare l) = some x ∧ readPlain l = (plain, [.heading x]) := by
    rw [readPlain_eq]
    cases hl : Construct.ofLine l
    case heading x => exact .inr ⟨x, Construct.ofLine_eq_heading_iff.mp hl, rfl⟩
    all_goals exact .inl (by simp)
  cases m
  case plain => exact hp
  case block => exact .inl (by simp [read])
  case drawer ps ks =>
    rw [read]
    split
    case isTrue => exact .inl (by simp)
    case isFalse =>
      split
      case h_1 => exact .inl (by simp)
      case h_2 =>
        rcases hp with hn | ⟨x, hx, hp⟩
        · exact .inl (by simpa using hn)
        · exact .inr ⟨x, hx, by rw [hp]; rfl⟩

-- Reading starts anew with each headline.
theorem exists_line_of_heading {m : Mode} (h : m.entries ls = es ++ .heading x :: fs) :
    ∃ ks l ks', ls = ks ++ l :: ks' ∧ Headline.ofLine? (bare l) = some x ∧ m.entries ks = es ∧
      plain.entries ks' = fs := by
  induction ls generalizing m es
  case nil =>
    have hm : .heading x ∈ m.rest := by
      rw [←entries_nil, h]
      simp
    exact absurd hm m.heading_not_mem_rest
  case cons l ls hi =>
    rw [entries_cons] at h
    rcases m.read_cases l with hn | ⟨y, hy, hr⟩
    · obtain ⟨es, rfl, he⟩ := append_cons_of_not_mem (hn x) h
      obtain ⟨ks, k, ks', rfl, hk, he, hs⟩ := hi he
      exact ⟨l :: ks, k, ks', rfl, hk, by rw [entries_cons, he], hs⟩
    · rw [hr, List.append_assoc] at h
      obtain ⟨es, rfl, he⟩ := append_cons_of_not_mem m.heading_not_mem_rest h
      cases es
      case nil =>
        cases he
        exact ⟨[], l, ls, rfl, hy, by simp [entries_nil], rfl⟩
      case cons e es =>
        obtain ⟨rfl, ht⟩ := List.cons.inj he
        obtain ⟨ks, k, ks', rfl, hk, he, hs⟩ := hi ht
        exact ⟨l :: ks, k, ks', rfl, hk, by simp [entries_cons, hr, he], hs⟩

theorem exists_cut (h : plain.entries ls = es ++ fs) (hf : StartsSection fs) :
    ∃ ks ks', ls = ks ++ ks' ∧ plain.entries ks = es ∧ plain.entries ks' = fs := by
  cases fs
  case nil => exact ⟨ls, [], by simp, by simpa using h, rfl⟩
  case cons e fs =>
    obtain ⟨x, rfl⟩ := hf e rfl
    obtain ⟨ks, l, ks', rfl, hl, he, hs⟩ := exists_line_of_heading h
    have hl := Construct.ofLine_eq_heading_iff.mpr hl
    exact ⟨ks, l :: ks', rfl, he, by rw [entries_heading hl, hs]⟩

end Mode

-- Entries of lines that are part of a finished text.
def Excerpt (es : List Entry) : Prop :=
  ∃ ls after, Mode.plain.entries ls = es ∧ Finished (ls ++ after)

namespace Excerpt

theorem ofLines (h : Finished ls) : Excerpt (Entry.ofLines ls) :=
  ⟨ls, [], rfl, by simpa using h⟩

-- Parts that are cut where a section starts print on lines of their own.
theorem cut (h : Excerpt (es ++ fs)) (hf : StartsSection fs) :
    Excerpt es ∧ Excerpt fs ∧
      lines ((es ++ fs).flatMap Entry.markup) =
        lines (es.flatMap Entry.markup) ++ lines (fs.flatMap Entry.markup) := by
  obtain ⟨ls, after, he, hl⟩ := h
  obtain ⟨ks, ks', rfl, rfl, rfl⟩ := Mode.exists_cut he hf
  have ⟨ps, hp⟩ := exists_printsAs ks
  have ⟨ps', hp'⟩ := exists_printsAs ks'
  have ⟨hs, _⟩ := List.forall_mem_append.mp hl.isSmooth
  have ⟨hs, hs'⟩ := List.forall_mem_append.mp hs
  have ha : List.Forall₂ IsPiece after after := List.forall₂_same.mpr fun _ _ => .inl rfl
  have hq := hl.of_pieces (List.rel_append (List.rel_append (hp.pieces hs) (hp'.pieces hs')) ha)
  refine ⟨⟨ks, ks' ++ after, rfl, ?_⟩, ⟨ks', after, rfl, ?_⟩, ?_⟩
  · rwa [←List.append_assoc]
  · rw [List.append_assoc] at hl
    exact hl.of_append
  · rw [List.flatMap_append, hp.flatten_eq, hp'.flatten_eq, ←List.flatten_append, hq.lines_parts]

theorem isFlatLine_heading (h : Excerpt (.heading x :: es)) : IsFlatLine x.markup := by
  obtain ⟨ls, after, he, hl⟩ := h
  obtain ⟨ks, l, ks', rfl, hx, _, _⟩ := Mode.exists_line_of_heading (show _ = [] ++ _ from he)
  exact Construct.isFlatLine_heading_markup (Construct.ofLine_eq_heading_iff.mpr hx)
    (hl.isSmooth l (by simp))

theorem tail (h : Excerpt (.heading x :: es)) : Excerpt es := by
  obtain ⟨ls, after, he, hl⟩ := h
  obtain ⟨ks, l, ks', rfl, -, -, hk⟩ := Mode.exists_line_of_heading (show _ = [] ++ _ from he)
  have ha : ks ++ l :: ks' ++ after = ks ++ [l] ++ (ks' ++ after) := by simp
  exact ⟨ks', after, hk, Finished.of_append (ha ▸ hl)⟩

theorem lines_heading (h : Excerpt (.heading x :: es)) (s : Text) :
    lines (x.markup ++ s) = x.markup :: lines s := by
  have ⟨p, _, hp, hx⟩ := h.isFlatLine_heading
  exact hx ▸ lines_append hp.isLine (by simp)

-- What an excerpt prints reads as itself, if each of its headlines does.
theorem gather_lines (h : Excerpt es) (hh : HeadingsReread es) :
    gather (Mode.plain.entries (lines (es.flatMap Entry.markup))) = gather es := by
  obtain ⟨ls, after, rfl, hl⟩ := h
  have ⟨ps, hp⟩ := exists_printsAs ls
  have ⟨hs, _⟩ := List.forall_mem_append.mp hl.isSmooth
  have ha : List.Forall₂ IsPiece after after := List.forall₂_same.mpr fun _ _ => .inl rfl
  have hr := (hl.of_pieces (List.rel_append (hp.pieces hs) ha)).resplits_front
  rw [hp.flatten_eq, hp.gather_resplit hs hr, map_reread_of_headings hh]

theorem ofText_markup (h : Excerpt es) (hh : HeadingsReread es)
    (hn : ∀ c ∈ (es.flatMap Entry.markup).getLast?, c = '\n') :
    Document.ofText (es.flatMap Entry.markup) = .ofEntries es := by
  rw [Document.ofText, completed_lines hn, Document.ofEntries, Document.ofEntries]
  have hg := h.gather_lines hh
  exact congrArg (fun g : Content × List (Headline × Content) =>
    (⟨g.1.body?, .ofHeadings g.2⟩ : Document)) hg

theorem headlinesOutside_lines (h : Excerpt es) (hh : HeadingsReread es) :
    headlinesOutside none ((lines (es.flatMap Entry.markup)).map bare) =
      es.filterMap Entry.heading? := by
  rw [←headings_gather, ←h.gather_lines hh, headings_gather]
  exact (Mode.headings_entries .plain _).symm

theorem head?_lines (h : Excerpt es) (hs : StartsSection es) :
    (lines (Document.ofEntries es).markup).head? =
      (Document.ofEntries es).sections.roots.head?.map Headline.markup := by
  rw [Document.markup_ofEntries]
  cases es
  case nil => rfl
  case cons e es =>
    obtain ⟨x, rfl⟩ := hs e rfl
    have hx : (Entry.heading x :: es).flatMap Entry.markup = x.markup ++ es.flatMap Entry.markup := rfl
    rw [hx, h.lines_heading]
    rfl

end Excerpt

end Cutting

section Gathering

variable {c : Content} {hs hs' : List (Headline × Content)}

namespace StartsSection

theorem heading (x : Headline) (es : List Entry) : StartsSection (.heading x :: es) := by
  rintro _ ⟨⟩
  exact ⟨x, rfl⟩

theorem of_append (h : StartsSection (es ++ fs)) : StartsSection es := by
  cases es
  case nil  => simp [StartsSection]
  case cons => exact h

theorem exists_heading (h : StartsSection es) (hg : gather es = ([], (x, c) :: hs)) :
    ∃ fs, es = .heading x :: fs ∧ gather fs = (c, hs) := by
  cases es
  case nil => cases hg
  case cons e es =>
    obtain ⟨y, rfl⟩ := h e rfl
    cases hg
    exact ⟨es, rfl, rfl⟩

end StartsSection

-- What is gathered below some of the headlines was read by itself.
theorem exists_gather (h : gather es = (c, hs ++ hs')) :
    ∃ own more, es = own ++ more ∧ StartsSection more ∧ gather own = (c, hs) ∧
      gather more = ([], hs') := by
  cases hs'
  case nil => exact ⟨es, [], by simp, by simp [StartsSection], by simpa using h, rfl⟩
  case cons y hs' =>
    induction es generalizing c hs
    case nil => simp [gather] at h
    case cons e es hi =>
      cases e
      case heading x =>
        obtain ⟨rfl, hx⟩ := Prod.mk.inj h
        cases hs
        case nil => exact ⟨[], .heading x :: es, rfl, .heading x es, rfl, h⟩
        case cons z hs =>
          obtain ⟨rfl, ht⟩ := List.cons.inj hx
          obtain ⟨own, more, rfl, hm, ho, hg⟩ := hi (Prod.ext rfl ht)
          exact ⟨.heading x :: own, more, rfl, hm, by simp [gather, ho], hg⟩
      all_goals
        obtain ⟨rfl, ht⟩ := Prod.mk.inj h
        obtain ⟨own, more, rfl, hm, ho, hg⟩ := hi (Prod.ext rfl ht)
        exact ⟨_ :: own, more, rfl, hm, by simp [gather, ho], hg⟩

end Gathering

end Transclusion
