import Transclusion.Proofs.Outline.OutsideBlocks

namespace Transclusion

open Text

namespace Forest

-- The headlines of all sections.
def headlines (f : Forest) : List Headline :=
  f.preorder.map (·.headline)

-- The headlines that are nested in no other.
def roots : Forest → List Headline
  | nil => []
  | cons h _ _ r => h :: r.roots

-- A headline has fewer stars than those nested in it, and no fewer than the one that follows it.
inductive WellNested : Forest → Prop
  | nil : WellNested nil
  | cons {h c i r} (hc : ∀ x ∈ i.roots, h.stars < x.stars)
    (hs : ∀ x ∈ r.roots.head?, x.stars ≤ h.stars) (hi : WellNested i) (hr : WellNested r) :
    WellNested (cons h c i r)

-- For each section, where its parent stands among all sections. `parent` is that of the roots, and
-- `next` is where the first section stands.
def parents (parent : Option Nat) (next : Nat) : Forest → List (Option Nat)
  | nil => []
  | cons _ _ i r =>
    parent :: (i.parents (some next) (next + 1) ++ r.parents parent (next + 1 + i.headlines.length))

-- The forest without what stands below the headlines.
def outline : Forest → Forest
  | nil => nil
  | cons h _ i r => cons h none i.outline r.outline

end Forest

-- Where the nearest headline with fewer stars than `n` stands, counted from the first.
inductive NearestFewer (n : Nat) : List Headline → Option Nat → Prop
  | none {hs} (h : ∀ x ∈ hs, n ≤ x.stars) : NearestFewer n hs none
  | some {front h back} (hf : h.stars < n) (hb : ∀ x ∈ back, n ≤ x.stars) :
    NearestFewer n (front ++ h :: back) (some front.length)

-- For each of the headlines `hs`, which come after those of `before`, where the nearest one before
-- it with fewer stars stands.
inductive Hang : (before hs : List Headline) → List (Option Nat) → Prop
  | nil {before} : Hang before [] []
  | cons {before h p hs ps} (hp : NearestFewer h.stars before p) (ht : Hang (before ++ [h]) hs ps) :
    Hang before (h :: hs) (p :: ps)

section Hanging

variable {before back hs hs' : List Headline} {p : Option Nat} {ps ps' : List (Option Nat)}
  {n : Nat}

-- Headlines with no fewer stars do not come between.
theorem NearestFewer.append (h : NearestFewer n before p) (hb : ∀ x ∈ back, n ≤ x.stars) :
    NearestFewer n (before ++ back) p := by
  cases h
  case none h => exact .none (List.forall_mem_append.mpr ⟨h, hb⟩)
  case some front h back' hf hb' =>
    rw [List.append_assoc, List.cons_append]
    exact .some hf (List.forall_mem_append.mpr ⟨hb', hb⟩)

theorem Hang.append (h : Hang before hs ps) (h' : Hang (before ++ hs) hs' ps') :
    Hang before (hs ++ hs') (ps ++ ps') := by
  induction h
  case nil          => simpa using h'
  case cons hp _ hi => exact .cons hp (hi (by simpa using h'))

end Hanging

namespace Forest

variable {f g i r : Forest} {n : Nat}

@[simp] theorem headlines_cons (h : Headline) (c : Option Content) (i r : Forest) :
    (cons h c i r).headlines = h :: (i.headlines ++ r.headlines) := by
  simp [headlines, preorder]

section Nested

theorem wellNested_cons_iff {h : Headline} {c : Option Content} :
    (cons h c i r).WellNested ↔ (∀ x ∈ i.roots, h.stars < x.stars) ∧
      (∀ x ∈ r.roots.head?, x.stars ≤ h.stars) ∧ i.WellNested ∧ r.WellNested := by
  constructor
  case mp =>
    rintro ⟨⟩
    exact ⟨‹_›, ‹_›, ‹_›, ‹_›⟩
  case mpr => exact fun ⟨hc, hs, hi, hr⟩ => .cons hc hs hi hr

theorem lt_of_mem_roots_deeper : ∀ x ∈ (f.deeper n).roots, n < x.stars := by
  induction f
  case nil => simp [deeper, roots]
  case cons h c i r _ hr =>
    rw [deeper]
    split
    case isTrue hn => exact List.forall_mem_cons.mpr ⟨hn, hr⟩
    case isFalse   => simp [roots]

theorem le_of_head_roots_beyond : ∀ x ∈ (f.beyond n).roots.head?, x.stars ≤ n := by
  induction f
  case nil => simp [beyond, roots]
  case cons h c i r _ hr =>
    rw [beyond]
    split
    case isTrue     => exact hr
    case isFalse hn => simpa [roots] using hn

theorem head_roots_deeper : ∀ x ∈ (f.deeper n).roots.head?, x ∈ f.roots.head? := by
  cases f
  case nil => simp [deeper]
  case cons =>
    rw [deeper]
    split <;> simp [roots]

-- Cutting a forest where stars stop being more than `n` and putting it together again.
theorem deeper_append (hi : ∀ x ∈ i.roots, n < x.stars) (hr : ∀ x ∈ r.roots.head?, x.stars ≤ n) :
    (i ++ r).deeper n = i ∧ (i ++ r).beyond n = r := by
  induction i
  case nil =>
    cases r
    case nil  => exact ⟨rfl, rfl⟩
    case cons =>
      have hn := Nat.not_lt.mpr (hr _ rfl)
      simp [deeper, beyond, hn]
  case cons h c j i _ hs =>
    obtain ⟨hn, hi⟩ := List.forall_mem_cons.mp hi
    simp [deeper, beyond, hn, hs hi]

namespace WellNested

theorem deeper (h : f.WellNested) : (f.deeper n).WellNested := by
  induction h
  case nil => exact .nil
  case cons hc hs hi _ _ hr =>
    rw [Forest.deeper]
    split
    case isTrue  => exact .cons hc (fun x hx => hs x (head_roots_deeper x hx)) hi hr
    case isFalse => exact .nil

theorem beyond (h : f.WellNested) : (f.beyond n).WellNested := by
  induction h
  case nil => exact .nil
  case cons hc hs hi hr _ hb =>
    rw [Forest.beyond]
    split
    case isTrue  => exact hb
    case isFalse => exact .cons hc hs hi hr

theorem ofHeadings (hs : List (Headline × Content)) : (Forest.ofHeadings hs).WellNested := by
  induction hs
  case nil => exact .nil
  case cons x hs hi =>
    exact .cons lt_of_mem_roots_deeper le_of_head_roots_beyond hi.deeper hi.beyond

theorem append (hi : i.WellNested) (hr : r.WellNested)
    (h : ∀ x ∈ i.roots, ∀ y ∈ r.roots.head?, y.stars ≤ x.stars) : (i ++ r).WellNested := by
  induction hi
  case nil => exact hr
  case cons h' c j i hc hs hj _ _ hi =>
    have ⟨hx, h⟩ := List.forall_mem_cons.mp h
    refine .cons hc ?_ hj (hi h)
    cases i
    case nil  => exact hx
    case cons => exact hs

-- No root has more stars than the first.
theorem le_of_mem_roots (h : f.WellNested) (hf : ∀ x ∈ f.roots.head?, x.stars ≤ n) :
    ∀ x ∈ f.roots, x.stars ≤ n := by
  induction h generalizing n
  case nil => simp [roots]
  case cons hs _ _ _ hr =>
    have hn := hf _ rfl
    exact List.forall_mem_cons.mpr ⟨hn, hr fun x hx => (hs x hx).trans hn⟩

theorem lt_of_mem_headlines (h : f.WellNested) (hf : ∀ x ∈ f.roots, n < x.stars) :
    ∀ x ∈ f.headlines, n < x.stars := by
  induction h generalizing n
  case nil => simp [headlines, preorder]
  case cons hc _ _ _ hi hr =>
    obtain ⟨hn, hf⟩ := List.forall_mem_cons.mp hf
    rw [headlines_cons, List.forall_mem_cons, List.forall_mem_append]
    exact ⟨hn, hi fun x hx => hn.trans (hc x hx), hr hf⟩

-- Parents are the nearest headlines with fewer stars.
theorem hang {before : List Headline} {p : Option Nat} (h : f.WellNested)
    (hp : ∀ x ∈ f.roots, NearestFewer x.stars before p) :
    Hang before f.headlines (f.parents p before.length) := by
  induction h generalizing before p
  case nil => exact .nil
  case cons h c i r hc hs hi hr hii hri =>
    have ⟨hh, hp⟩ := List.forall_mem_cons.mp hp
    rw [headlines_cons, parents]
    refine .cons hh (.append ?inside ?after)
    case inside =>
      have hn : ∀ x ∈ i.roots, NearestFewer x.stars (before ++ [h]) (some before.length) :=
        fun x hx => .some (hc x hx) (by simp)
      simpa only [List.length_append, List.length_singleton] using hii hn
    case after =>
      have hle := hr.le_of_mem_roots hs
      have hn : ∀ x ∈ r.roots, NearestFewer x.stars (before ++ [h] ++ i.headlines) p := by
        intro x hx
        refine ((hp x hx).append (List.forall_mem_singleton.mpr (hle x hx))).append fun y hy => ?_
        exact (hle x hx).trans (hi.lt_of_mem_headlines hc y hy).le
      simpa only [List.length_append, List.length_singleton] using hri hn

end WellNested

end Nested

section Unique

-- All headlines with what stands directly below them.
def headings (f : Forest) : List (Headline × Option Content) :=
  f.preorder.map fun s => (s.headline, s.content)

@[simp] theorem headings_cons (h : Headline) (c : Option Content) (i r : Forest) :
    (cons h c i r).headings = (h, c) :: (i.headings ++ r.headings) := by
  simp [headings, preorder]

theorem headings_append (f g : Forest) : (f ++ g).headings = f.headings ++ g.headings := by
  simp [headings, preorder_append]

-- All that follows a headline is itself a forest, and where to cut this is told by the stars.
theorem WellNested.eq_of_headings (hf : f.WellNested) (hg : g.WellNested)
    (h : f.headings = g.headings) : f = g := by
  generalize hl : f.headings = l at h
  induction l generalizing f g
  case nil =>
    cases f <;> cases g
    case nil.nil => rfl
    all_goals cases hl <;> cases h
  case cons x l hi =>
    cases hf
    case nil => cases hl
    case cons hc hs hi₁ hr₁ =>
      cases hg
      case nil => cases h
      case cons hc' hs' hi₂ hr₂ =>
        rw [headings_cons, ←headings_append] at hl h
        cases hl
        obtain ⟨he, ht⟩ := List.cons.inj h
        cases he
        have ha := hi (hi₁.append hr₁ fun x hx y hy => (hs y hy).trans (hc x hx).le)
          (hi₂.append hr₂ fun x hx y hy => (hs' y hy).trans (hc' x hx).le) rfl ht
        have ⟨hd, hb⟩ := deeper_append hc hs
        have ⟨hd', hb'⟩ := deeper_append hc' hs'
        rw [ha] at hd hb
        cases hd.symm.trans hd'
        cases hb.symm.trans hb'
        rfl

theorem roots_outline (f : Forest) : f.outline.roots = f.roots := by
  induction f
  case nil                => rfl
  case cons h c i r _ hr => rw [outline, roots, roots, hr]

theorem headings_outline (f : Forest) : f.outline.headings = f.headlines.map (·, none) := by
  induction f
  case nil                 => rfl
  case cons h c i r hi hr => simp [outline, hi, hr]

theorem headlines_outline (f : Forest) : f.outline.headlines = f.headlines := by
  induction f
  case nil                 => rfl
  case cons h c i r hi hr => simp [outline, hi, hr]

theorem wellNested_outline_iff : f.outline.WellNested ↔ f.WellNested := by
  induction f
  case nil                 => rfl
  case cons h c i r hi hr => simp only [outline, wellNested_cons_iff, roots_outline, hi, hr]

-- Well nested forests differ in their headlines, if at all but for what stands below these.
theorem WellNested.outline_eq_iff (hf : f.WellNested) :
    g.headlines = f.headlines ∧ g.WellNested ↔ g.outline = f.outline := by
  constructor
  case mp =>
    rintro ⟨h, hg⟩
    refine (wellNested_outline_iff.mpr hg).eq_of_headings (wellNested_outline_iff.mpr hf) ?_
    rw [headings_outline, headings_outline, h]
  case mpr =>
    intro h
    rw [←headlines_outline, ←wellNested_outline_iff, h, headlines_outline, wellNested_outline_iff]
    exact ⟨rfl, hf⟩

end Unique

end Forest

-- The sections of a text are its headlines outside of blocks. Each hangs below the nearest one
-- before it with fewer stars, and there is no other way to nest them well.
theorem Document.sections_ofText (t : Text) :
    let f := (ofText t).sections
    let hs := headlinesOutside none ((lines t).map bare)
    f.headlines = hs ∧ Hang [] hs (f.parents none 0) ∧ f.WellNested ∧
      ∀ g : Forest, g.headlines = hs ∧ g.WellNested ↔ g.outline = f.outline := by
  intro f hs
  have hh : f.headlines = hs := headlines_ofText t
  have hw : f.WellNested := .ofHeadings _
  refine ⟨hh, hh ▸ hw.hang fun x _ => .none ?_, hw, hh ▸ fun g => hw.outline_eq_iff⟩
  simp

-- Levels may be left out, and the first headline may be of any.
example :
    (Document.ofText "*** a\n** b\n* c\n**** d\n*** e\n* f\n".toList).sections.parents none 0 =
      [none, none, none, some 2, some 2, none] := by decide +kernel

end Transclusion
