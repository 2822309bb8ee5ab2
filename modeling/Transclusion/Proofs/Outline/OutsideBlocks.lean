import Transclusion.Proofs.Outline.RoundTrip

namespace Transclusion

open Text

-- The headlines of lines without their ends, outside of blocks. `block?` is the block that is open
-- before the lines.
def headlinesOutside : (block? : Option Text) → List Text → List Headline
  | _, [] => []
  | some name, l :: ls => headlinesOutside (if Block.closes name l then none else some name) ls
  | none, l :: ls =>
    match Headline.ofLine? l with
    | some h => h :: headlinesOutside none ls
    | none => headlinesOutside (Block.opens? l) ls

section Lines

variable {l s : Text}

theorem bare_append_newline (l : Text) : bare (l ++ ['\n']) = bare l := by
  simp [bare]

theorem map_bare_completed (ls : List Text) : (completed ls).map bare = ls.map bare := by
  fun_induction completed ls
  case case3 => simp [bare_append_newline]
  all_goals simp_all

theorem Drawer.exists_colon (h : closes l ∨ property? l ≠ none) : ∃ s, trimStart l = ':' :: s := by
  cases ht : trimStart l
  case nil => simp [closes, isMark, property?, ht, afterFold?, after?] at h
  case cons c s =>
    by_contra hc
    obtain ⟨_, hn, hp⟩ := not_marked ht fun he => hc ⟨s, he ▸ rfl⟩
    simp [hn, hp] at h

theorem not_heading_of_ne_star {c : Char} (h : trimStart l = c :: s) (hc : c ≠ '*') :
    Headline.ofLine? l = none := by
  cases l
  case nil => rfl
  case cons x l =>
    by_cases hx : x = '*'
    case pos =>
      subst hx
      rw [trimStart_cons_of_not_isBlank (by decide)] at h
      cases h
      exact absurd rfl hc
    case neg => simp [Headline.ofLine?, hx]

theorem not_heading_of_colon (h : trimStart l = ':' :: s) : Headline.ofLine? l = none :=
  not_heading_of_ne_star h (by decide)

theorem not_block_of_colon (h : trimStart l = ':' :: s) : Block.opens? l = none := by
  have ha : agree '#' ':' = false := by decide +kernel
  rw [Block.opens?, h, show "#+begin_".toList = '#' :: "+begin_".toList from rfl, afterFold?,
    if_neg (by simp [ha])]
  rfl

theorem headlinesOutside_of_colon (h : trimStart l = ':' :: s) (ls : List Text) :
    headlinesOutside none (l :: ls) = headlinesOutside none ls := by
  rw [headlinesOutside, not_heading_of_colon h, not_block_of_colon h]

end Lines

namespace Mode

def block? : Mode → Option Text
  | block name => some name
  | _ => none

theorem headings_readPlain (l : Text) (ls : List Text) :
    (readPlain l).2.filterMap Entry.heading? ++ headlinesOutside (readPlain l).1.block? ls =
      headlinesOutside none (bare l :: ls) := by
  cases hh : Headline.ofLine? (bare l)
  case some h => simp [readPlain, headlinesOutside, hh, block?, Entry.heading?]
  case none =>
    cases hb : Block.opens? (bare l)
    case some name => simp [readPlain, headlinesOutside, hh, hb, block?, Entry.heading?]
    case none =>
      cases hd : Drawer.opens (bare l) <;> cases hk : Keyword.ofLine? (bare l) <;>
        simp [readPlain, headlinesOutside, hh, hb, hd, hk, block?, Entry.heading?]

theorem headings_entries (m : Mode) (ls : List Text) :
    (m.entries ls).filterMap Entry.heading? = headlinesOutside m.block? (ls.map bare) := by
  induction ls generalizing m
  case nil => cases m <;> simp [entries, readAll, rest, headlinesOutside, Entry.heading?]
  case cons l ls hi =>
    rw [entries_cons, List.filterMap_append, hi, List.map_cons]
    cases m
    case plain => exact headings_readPlain l _
    case block name =>
      cases hc : Block.closes name (bare l) <;>
        simp [read, headlinesOutside, hc, block?, Entry.heading?]
    case drawer ps ks =>
      have hn : (drawer ps ks).block? = none := rfl
      cases hc : Drawer.closes (bare l)
      case true =>
        obtain ⟨_, ht⟩ := Drawer.exists_colon (.inl hc)
        rw [hn, headlinesOutside_of_colon ht]
        simp [read, hc, Entry.heading?, block?]
      case false =>
        cases hp : Drawer.property? (bare l)
        case some =>
          obtain ⟨_, ht⟩ := Drawer.exists_colon (.inr (hp ▸ Option.some_ne_none _))
          rw [hn, headlinesOutside_of_colon ht]
          simp [read, hc, hp, block?]
        case none =>
          rw [hn, ←headings_readPlain]
          simp [read, hc, hp, Entry.heading?]

end Mode

theorem Document.headlines_ofText (t : Text) :
    (ofText t).sections.preorder.map (·.headline) = headlinesOutside none ((lines t).map bare) := by
  have hm := Mode.headings_entries .plain (completed (lines t))
  rw [map_bare_completed] at hm
  exact (headlines_ofEntries _).trans hm

end Transclusion
