import Transclusion.Directive
import Transclusion.Proofs.Locate.Search
import Transclusion.Proofs.Outline.Origins
import Transclusion.Proofs.Outline.OutsideBlocks

namespace Transclusion

open Text

section Skeletons

def Entry.skeleton : Entry → Entry
  | line _ => line []
  | e => e

def Element.skeleton : Element → Element
  | text _ => text []
  | e => e

def Content.skeleton (c : Content) : Content :=
  c.map Element.skeleton

def Forest.skeleton : Forest → Forest
  | nil => nil
  | cons h c i r => cons h (c.map Content.skeleton) i.skeleton r.skeleton

def Section.skeleton (s : Section) : Section where
  headline := s.headline
  content := s.content.map Content.skeleton
  sections := s.sections.skeleton

def Document.skeleton (d : Document) : Document where
  content := d.content.map Content.skeleton
  sections := d.sections.skeleton

def Tree.skeleton : Tree → Tree
  | whole d => whole d.skeleton
  | part s => part s.skeleton

end Skeletons

-- Lines that are given without their ends.
def Text.unlines (ls : List Text) : Text :=
  ls.flatMap (· ++ ['\n'])

-- A block with the lines around it, but without those inside.
structure Block.Shell where
  before : List Text
  start : Text
  name : Text
  stop : Text
  after : List Text
  flat : ∀ l ∈ before ++ start :: stop :: after, IsFlat l
  outside : (Mode.plain.readAll (before.map (· ++ ['\n']))).1.block? = none
  opens : Block.opens? start = some name
  closes : Block.closes name stop

namespace Block.Shell

def fill (b : Shell) (inside : List Text) : Text :=
  unlines (b.before ++ b.start :: (inside ++ b.stop :: b.after))

-- The block does not end among the lines.
def Takes (b : Shell) (inside : List Text) : Prop :=
  ∀ l ∈ inside, IsFlat l ∧ Block.closes b.name l = false

end Block.Shell

-- The document and all of its sections.
def Document.trees (d : Document) : List Tree :=
  .whole d :: d.sections.preorder.map .part

-- What trees have in common that differ in nothing but text.
structure Tree.Alike (t t' : Tree) : Prop where
  skeleton : t.skeleton = t'.skeleton
  directives : t.directives = t'.directives
  hasDirectives : t.hasDirectives = t'.hasDirectives
  fails : ∀ option, t.locate? option = none ↔ t'.locate? option = none
  finds : ∀ option s s', t.locate? option = some s → t'.locate? option = some s' →
    ∃ i : Nat, t.preorder[i]? = some s ∧ t'.preorder[i]? = some s'

section Gathering

-- Lines that merge to one text merge in the skeleton as well.
theorem Content.skeleton_push (e : Entry) (c : Content) :
    (c.push e).skeleton = c.skeleton.push e.skeleton := by
  cases e
  case line l =>
    cases c
    case nil => rfl
    case cons x c => cases x <;> rfl
  all_goals rfl

theorem Content.skeleton_body? (c : Content) : c.body?.map skeleton = c.skeleton.body? := by
  cases c <;> rfl

theorem gather_skeleton (es : List Entry) :
    gather (es.map Entry.skeleton) =
      ((gather es).1.skeleton, (gather es).2.map fun x => (x.1, x.2.skeleton)) := by
  induction es
  case nil => rfl
  case cons e es hi =>
    cases e
    case heading h => simp [gather, Entry.skeleton, Content.skeleton, hi]
    all_goals
      rw [List.map_cons, gather_cons (by simp [Entry.skeleton]), gather_cons (by simp), hi,
        Content.skeleton_push]

namespace Forest

theorem skeleton_deeper (n : Nat) (f : Forest) : (f.deeper n).skeleton = f.skeleton.deeper n := by
  induction f
  case nil => rfl
  case cons h c i r hi hr =>
    simp only [deeper, skeleton]
    split
    case isTrue  => rw [skeleton, hr]
    case isFalse => rfl

theorem skeleton_beyond (n : Nat) (f : Forest) : (f.beyond n).skeleton = f.skeleton.beyond n := by
  induction f
  case nil => rfl
  case cons h c i r hi hr =>
    simp only [beyond, skeleton]
    split
    case isTrue  => exact hr
    case isFalse => rfl

theorem skeleton_graft (h : Headline) (c : Content) (f : Forest) :
    (f.graft h c).skeleton = f.skeleton.graft h c.skeleton := by
  simp only [graft, skeleton, skeleton_deeper, skeleton_beyond, Content.skeleton_body?]

theorem skeleton_ofHeadings (hs : List (Headline × Content)) :
    (ofHeadings hs).skeleton = ofHeadings (hs.map fun x => (x.1, x.2.skeleton)) := by
  induction hs
  case nil          => rfl
  case cons x hs hi => exact (skeleton_graft ..).trans (congrArg (graft x.1 x.2.skeleton) hi)

theorem preorder_skeleton (f : Forest) : f.skeleton.preorder = f.preorder.map Section.skeleton := by
  induction f
  case nil => rfl
  case cons h c i r hi hr => simp [skeleton, preorder, hi, hr, Section.skeleton]

end Forest

theorem Document.skeleton_ofEntries (es : List Entry) :
    (ofEntries es).skeleton = ofEntries (es.map Entry.skeleton) := by
  simp only [ofEntries, gather_skeleton, skeleton, Content.skeleton_body?, Forest.skeleton_ofHeadings]

-- Lines that say nothing are no more than one of them.
theorem gather_replicate_line (n : Nat) (es : List Entry) :
    gather (List.replicate (n + 1) (.line []) ++ es) = gather (.line [] :: es) := by
  induction n
  case zero => rfl
  case succ n hi =>
    rw [List.replicate_succ, List.cons_append, gather_cons (by simp), hi, gather_cons (by simp)]
    cases hc : (gather es).1 with
    | nil       => rfl
    | cons x c => cases x <;> rfl

-- How many lines there are between `front` and `es`, and what they say, does not show in the skeleton.
theorem Document.skeleton_lines {ls ls' : List Text} (h : ls ≠ []) (h' : ls' ≠ []) (front es : List Entry) :
    (ofEntries (front ++ (ls.map Entry.line ++ es))).skeleton =
      (ofEntries (front ++ (ls'.map Entry.line ++ es))).skeleton := by
  have hg (ls : List Text) (h : ls ≠ []) :
      gather ((front ++ (ls.map Entry.line ++ es)).map Entry.skeleton) =
        gather (front.map Entry.skeleton ++ .line [] :: es.map Entry.skeleton) := by
    obtain ⟨l, ls, rfl⟩ := List.exists_cons_of_ne_nil h
    have hl : ((l :: ls).map Entry.line).map Entry.skeleton = List.replicate (ls.length + 1) (.line []) := by
      simp [Function.comp_def, Entry.skeleton, List.map_const', List.replicate_succ]
    rw [List.map_append, List.map_append, hl]
    exact gather_append_congr (gather_replicate_line ..) _
  rw [skeleton_ofEntries, skeleton_ofEntries, ofEntries, ofEntries, hg ls h, hg ls' h']

end Gathering

section Reading

variable {l name : Text} {m : Mode}

theorem Construct.ofLine_of_opens (h : Block.opens? (bare l) = some name) : ofLine l = block name := by
  have hh : Headline.ofLine? (bare l) = none := by
    cases ht : trimStart (bare l)
    case nil => simp [Block.opens?, ht, afterFold?] at h
    case cons c s =>
      have ha : agree '#' c := by
        by_contra ha
        simp [Block.opens?, ht, afterFold?, ha] at h
      refine not_heading_of_ne_star ht ?_
      rw [eq_of_agree_of_lt (by decide) (by decide) ha]
      decide
  simp [ofLine, hh, h]

-- A line that opens a block breaks a drawer off.
theorem Mode.read_of_opens (hm : m.block? = none) (h : Block.opens? (bare l) = some name) :
    m.read l = (block name, m.rest ++ [.line l]) := by
  have hp : readPlain l = (block name, [.line l]) := by
    rw [readPlain_eq, Construct.ofLine_of_opens h]
  cases m
  case plain => exact hp
  case block => cases hm
  case drawer ps ls =>
    have hn : Drawer.closes (bare l) = false ∧ Drawer.property? (bare l) = none := by
      by_contra hn
      rw [not_and_or, Bool.not_eq_false] at hn
      obtain ⟨s, ht⟩ := Drawer.exists_colon hn
      rw [not_block_of_colon ht] at h
      cases h
    simp [read, hn.left, hn.right, hp, rest]

-- Between the line that opens a block and the one that closes it there are just lines.
theorem Mode.entries_of_opens {body : List Text} {stop : Text} (hm : m.block? = none)
    (ho : Block.opens? (bare l) = some name) (hb : ∀ k ∈ body, Block.closes name (bare k) = false)
    (hs : Block.closes name (bare stop)) (after : List Text) :
    m.entries (l :: (body ++ stop :: after)) =
      m.rest ++ ((l :: (body ++ [stop])).map .line ++ plain.entries after) := by
  rw [entries_cons, read_of_opens hm ho, entries_block _ hb, entries_cons, read, if_pos hs]
  simp

theorem Text.completed_unlines {ls : List Text} (h : ∀ l ∈ ls, IsFlat l) :
    completed (lines (unlines ls)) = ls.map (· ++ ['\n']) := by
  have hl : lines (unlines ls) = ls.map (· ++ ['\n']) := by
    induction ls
    case nil => rfl
    case cons l ls hi =>
      obtain ⟨hl, hs⟩ := List.forall_mem_cons.mp h
      rw [unlines, List.flatMap_cons, lines_append hl.isLine (by simp), List.map_cons]
      exact congrArg _ (hi hs)
  rw [hl]
  refine completed_of_getLast? fun l hm => ?_
  obtain ⟨k, _, rfl⟩ := List.mem_map.mp (List.mem_of_getLast? hm)
  exact List.getLast?_concat

theorem Block.Shell.entries_fill {b : Shell} {inside : List Text} (h : b.Takes inside) :
    Entry.ofLines (completed (lines (b.fill inside))) =
      Mode.plain.entries (b.before.map (· ++ ['\n'])) ++
        (((b.start :: (inside ++ [b.stop])).map (· ++ ['\n'])).map Entry.line ++
          Mode.plain.entries (b.after.map (· ++ ['\n']))) := by
  have ⟨hf, ha⟩ := List.forall_mem_append.mp b.flat
  have ⟨hs, ha⟩ := List.forall_mem_cons.mp ha
  have hi : ∀ l ∈ inside ++ b.stop :: b.after, IsFlat l :=
    List.forall_mem_append.mpr ⟨fun l hl => (h l hl).left, ha⟩
  have hn : ∀ k ∈ inside.map (· ++ ['\n']), Block.closes b.name (bare k) = false := by
    refine List.forall_mem_map.mpr fun l hl => ?_
    rw [(h l hl).left.bare_append_newline]
    exact (h l hl).right
  have ho : Block.opens? (bare (b.start ++ ['\n'])) = some b.name := by
    rw [hs.bare_append_newline, b.opens]
  have hc : Block.closes b.name (bare (b.stop ++ ['\n'])) := by
    rw [(ha _ List.mem_cons_self).bare_append_newline]
    exact b.closes
  rw [fill, completed_unlines (List.forall_mem_append.mpr ⟨hf, List.forall_mem_cons.mpr ⟨hs, hi⟩⟩)]
  simp only [List.map_append, List.map_cons]
  refine (Mode.entries_append ..).trans ?_
  rw [Mode.entries_of_opens b.outside ho hn hc, ←List.append_assoc]
  simp [Mode.entries]

end Reading

section Searching

variable {α β : Type} {f : α → β} {p : α → Prop} {ps : List (α → Prop)} {xs xs' : List α} {x : α}

-- What does not tell things apart that are the same under `f` is met first at the same place.
theorem IsFirst.transfer (hf : ∀ x y, f x = f y → (p x ↔ p y)) (hm : xs.map f = xs'.map f)
    (h : IsFirst p xs x) :
    ∃ (i : Nat) (x' : α), xs[i]? = some x ∧ xs'[i]? = some x' ∧ IsFirst p xs' x' := by
  obtain ⟨before, after, rfl, hx, hb⟩ := h
  rw [List.map_append, List.map_cons, eq_comm, List.map_eq_append_iff] at hm
  obtain ⟨before', _, rfl, hb', ha⟩ := hm
  obtain ⟨x', after', rfl, hx', _⟩ := List.map_eq_cons_iff.mp ha
  have hl : before'.length = before.length := by simpa using congrArg List.length hb'
  refine ⟨before.length, x', by simp, by simp [←hl], before', after', rfl, (hf _ _ hx').mpr hx, ?_⟩
  intro y hy
  obtain ⟨z, hz, he⟩ := List.mem_map.mp (hb' ▸ List.mem_map_of_mem hy)
  exact fun hp => hb z hz ((hf _ _ he).mpr hp)

theorem IsBest.transfer (hf : ∀ p ∈ ps, ∀ x y, f x = f y → (p x ↔ p y)) (hm : xs.map f = xs'.map f)
    (h : IsBest ps xs x) :
    ∃ (i : Nat) (x' : α), xs[i]? = some x ∧ xs'[i]? = some x' ∧ IsBest ps xs' x' := by
  obtain ⟨stronger, p, others, rfl, hx, hs⟩ := h
  obtain ⟨i, x', hi, hi', hx'⟩ := hx.transfer (hf p (by simp)) hm
  refine ⟨i, x', hi, hi', stronger, p, others, rfl, hx', fun q hq y hy hqy => ?_⟩
  obtain ⟨z, hz, he⟩ := List.mem_map.mp (hm ▸ List.mem_map_of_mem hy)
  exact hs q hq z hz ((hf q (List.mem_append_left _ hq) _ _ he).mpr hqy)

end Searching

section Likeness

variable {t t' : Tree} {s : Section} {name value option : Text}

theorem Content.keywords_skeleton (c : Content) : c.skeleton.keywords = c.keywords := by
  rw [keywords, skeleton, List.filterMap_map]
  refine congrArg (c.filterMap ·) (funext fun e => ?_)
  cases e <;> rfl

theorem bodyKeywords_skeleton (c : Option Content) :
    bodyKeywords (c.map Content.skeleton) = bodyKeywords c := by
  cases c
  case none   => rfl
  case some c => exact c.keywords_skeleton

theorem Forest.keywords_skeleton (f : Forest) : f.skeleton.keywords = f.keywords := by
  induction f
  case nil => rfl
  case cons h c i r hi hr => simp only [skeleton, keywords, bodyKeywords_skeleton, hi, hr]

theorem Tree.keywords_skeleton (t : Tree) : t.skeleton.keywords = t.keywords := by
  cases t <;> exact congrArg₂ _ (bodyKeywords_skeleton _) (Forest.keywords_skeleton _)

theorem Tree.preorder_skeleton (t : Tree) : t.skeleton.preorder = t.preorder.map Section.skeleton := by
  cases t
  case whole d => exact d.sections.preorder_skeleton
  case part s  => exact congrArg (s.skeleton :: ·) s.sections.preorder_skeleton

theorem Section.property?_skeleton (s : Section) (name : Text) :
    s.skeleton.property? name = s.property? name := by
  have hd : s.skeleton.drawer? = s.drawer? := by
    have he : Element.drawer? ∘ Element.skeleton = Element.drawer? := funext fun e => by cases e <;> rfl
    rw [drawer?, drawer?, skeleton, Option.bind_map]
    refine congrArg s.content.bind (funext fun c => ?_)
    exact List.findSome?_map.trans (congrArg (c.findSome? ·) he)
  rw [property?, hd, property?]

theorem Section.gives_skeleton : s.skeleton.Gives name value ↔ s.Gives name value := by
  rw [←property?_eq_some_iff, property?_skeleton, property?_eq_some_iff]

-- No wish is about texts.
theorem wish_skeleton {p : Section → Prop} (h : p ∈ wishes option) (s : Section) : p s.skeleton ↔ p s := by
  rw [wishes.eq_def] at h
  split at h
  case h_1 title =>
    simp only [List.mem_cons, List.not_mem_nil, or_false] at h
    rcases h with rfl | rfl | rfl <;> exact Iff.rfl
  case h_2 customId =>
    cases List.mem_singleton.mp h
    simp only [Section.CustomIdIs, Section.gives_skeleton]
  case h_3 =>
    split at h
    case isTrue  => cases h
    case isFalse =>
      cases List.mem_singleton.mp h
      exact Section.gives_skeleton

theorem Tree.locate?_transfer (h : t.skeleton = t'.skeleton) (hs : t.locate? option = some s) :
    ∃ (i : Nat) (s' : Section),
      t.preorder[i]? = some s ∧ t'.preorder[i]? = some s' ∧ t'.locate? option = some s' := by
  have hm : t.preorder.map Section.skeleton = t'.preorder.map Section.skeleton := by
    rw [←preorder_skeleton, h, preorder_skeleton]
  simp only [locate?_eq_findBest, findBest_eq_some_iff] at hs ⊢
  refine hs.transfer (fun p hp x y he => ?_) hm
  rw [←wish_skeleton hp, he, wish_skeleton hp]

theorem Tree.alike_of_skeleton (h : t.skeleton = t'.skeleton) : t.Alike t' := by
  have hk : t.keywords = t'.keywords := by rw [←keywords_skeleton, h, keywords_skeleton]
  refine ⟨h, by rw [Tree.directives, hk, Tree.directives], by rw [hasDirectives, hk, hasDirectives], ?_, ?_⟩
  case refine_1 =>
    intro option
    simp only [Option.eq_none_iff_forall_ne_some]
    constructor
    case mp =>
      intro hn s hs
      have ⟨_, s', _, _, hs'⟩ := locate?_transfer h.symm hs
      exact hn s' hs'
    case mpr =>
      intro hn s hs
      have ⟨_, s', _, _, hs'⟩ := locate?_transfer h hs
      exact hn s' hs'
  case refine_2 =>
    intro option s s' hs hs'
    obtain ⟨i, x, hi, hx, hx'⟩ := locate?_transfer h hs
    cases hs'.symm.trans hx'
    exact ⟨i, hi, hx⟩

theorem Document.trees_skeleton (d : Document) : d.skeleton.trees = d.trees.map Tree.skeleton := by
  simp [trees, skeleton, Forest.preorder_skeleton, Tree.skeleton]

theorem Document.alike_of_skeleton {d d' : Document} (h : d.skeleton = d'.skeleton) :
    List.Forall₂ Tree.Alike d.trees d'.trees := by
  have hm : d.trees.map Tree.skeleton = d'.trees.map Tree.skeleton := by
    rw [←trees_skeleton, h, trees_skeleton]
  rw [←List.forall₂_eq_eq_eq, List.forall₂_map_left_iff, List.forall₂_map_right_iff] at hm
  exact hm.imp fun _ _ => Tree.alike_of_skeleton

end Likeness

namespace Block.Shell

-- What stands in a block cannot be told from the rest of the outline.
theorem alike_fill (b : Shell) {inside inside' : List Text} (h : b.Takes inside) (h' : b.Takes inside') :
    (Document.ofText (b.fill inside)).skeleton = (Document.ofText (b.fill inside')).skeleton ∧
      List.Forall₂ Tree.Alike (Document.ofText (b.fill inside)).trees
        (Document.ofText (b.fill inside')).trees := by
  have hs : (Document.ofText (b.fill inside)).skeleton = (Document.ofText (b.fill inside')).skeleton := by
    rw [Document.ofText, entries_fill h, Document.ofText, entries_fill h']
    exact Document.skeleton_lines (by simp) (by simp) _ _
  exact ⟨hs, Document.alike_of_skeleton hs⟩

-- A listing that breaks off a drawer.
def listing : Shell where
  before := ["* A".toList, ":PROPERTIES:".toList]
  start := " #+BEGIN_src org".toList
  name := "src".toList
  stop := "#+end_src".toList
  after := ["#+transclude: [[./b.org]]".toList]
  flat := by decide +kernel
  outside := by decide +kernel
  opens := by decide +kernel
  closes := by decide +kernel

theorem alike_fill_listing :
    listing.Takes ["* B".toList, "#+begin_quote".toList, ":ID: b".toList, ":END:".toList] ∧ listing.Takes [] ∧
      List.Forall₂ Tree.Alike
        (Document.ofText (listing.fill
          ["* B".toList, "#+begin_quote".toList, ":ID: b".toList, ":END:".toList])).trees
        (Document.ofText (listing.fill [])).trees := by
  have ht : listing.Takes ["* B".toList, "#+begin_quote".toList, ":ID: b".toList, ":END:".toList] := by
    unfold Takes
    decide +kernel
  have hn : listing.Takes [] := List.forall_mem_nil _
  exact ⟨ht, hn, (listing.alike_fill ht hn).right⟩

end Block.Shell

end Transclusion
