import Mathlib.Data.List.Forall2
import Transclusion.Outline.Markup
import Transclusion.Outline.Reading

namespace Transclusion

open Text

section Printing

def Entry.markup : Entry → Text
  | heading h => h.markup
  | keyword k => k.markup
  | drawer d => d.markup
  | line l => l

theorem Entry.markup_lines (ls : List Text) : (ls.map line).flatMap markup = ls.flatten := by
  simp [List.flatMap_map, markup, List.flatMap_id']

theorem Content.markup_push {e : Entry} (h : ∀ x, e ≠ .heading x) (c : Content) :
    (c.push e).markup = e.markup ++ c.markup := by
  cases e
  case heading x => exact absurd rfl (h x)
  case line l =>
    cases c
    case nil => rfl
    case cons x c => cases x <;> simp [push, markup, Element.markup, Entry.markup]
  all_goals rfl

theorem Content.bodyMarkup_body? (c : Content) : bodyMarkup c.body? = c.markup := by
  cases c <;> rfl

theorem Forest.markup_graft (h : Headline) (c : Content) (f : Forest) :
    (f.graft h c).markup = h.markup ++ c.markup ++ f.markup := by
  have hf := congrArg markup (f.deeper_append_beyond h.stars)
  rw [markup_append] at hf
  simp [graft, markup, Content.bodyMarkup_body?, ←hf]

theorem Forest.markup_ofHeadings (hs : List (Headline × Content)) :
    (ofHeadings hs).markup = hs.flatMap fun x => x.1.markup ++ x.2.markup := by
  induction hs
  case nil          => rfl
  case cons x hs hi => simpa [ofHeadings, markup_graft] using hi

theorem markup_gather (es : List Entry) :
    (gather es).1.markup ++ (gather es).2.flatMap (fun x => x.1.markup ++ x.2.markup) =
      es.flatMap Entry.markup := by
  induction es
  case nil => rfl
  case cons e es hi =>
    cases e
    case heading h => simp [gather, Entry.markup, Content.markup, ←hi]
    all_goals
      simp only [gather, List.flatMap_cons, ←hi]
      rw [Content.markup_push (by simp), List.append_assoc]

-- Nesting and merging of lines do not show in print.
theorem Document.markup_ofEntries (es : List Entry) : (ofEntries es).markup = es.flatMap Entry.markup := by
  simp [ofEntries, markup, Content.bodyMarkup_body?, Forest.markup_ofHeadings, ←markup_gather]

end Printing

-- What a line outside of blocks and drawers is, by the first that fits.
inductive Construct
  | heading (h : Headline)
  | block (name : Text)
  | drawer
  | keyword (k : Keyword)
  | text

def Construct.ofLine (l : Text) : Construct :=
  match Headline.ofLine? (bare l), Block.opens? (bare l), Keyword.ofLine? (bare l) with
  | some h, _, _ => heading h
  | none, some name, _ => block name
  | none, none, k => if Drawer.opens (bare l) then drawer else k.elim text keyword

def Drawer.firstLine : Text :=
  ":PROPERTIES:\n".toList

def Drawer.lastLine : Text :=
  ":END:\n".toList

theorem Drawer.markup_eq_lines (properties : List (Text × Text)) :
    markup ⟨properties⟩ = firstLine ++ (properties.map propertyMarkup).flatten ++ lastLine := by
  rw [←List.flatMap_def]
  rfl

-- The lines go on with an open drawer and hold the properties.
def Drawer.Lists : List Text → List (Text × Text) → Prop :=
  List.Forall₂ fun l p => closes (bare l) = false ∧ property? (bare l) = some p

-- The lines do not go on with an open drawer, nor do they close it.
def Drawer.BreaksOff (ls : List Text) : Prop :=
  ∀ l ∈ ls.head?, closes (bare l) = false ∧ property? (bare l) = none

-- Lines, and the piece of markup that each of them prints as.
inductive PrintsAs : List Text → List Text → Prop
  | nil : PrintsAs [] []
  | heading {l h ls ps} (hl : Construct.ofLine l = .heading h) (hs : PrintsAs ls ps) :
    PrintsAs (l :: ls) (h.markup :: ps)
  | keyword {l k ls ps} (hl : Construct.ofLine l = .keyword k) (hs : PrintsAs ls ps) :
    PrintsAs (l :: ls) (k.markup :: ps)
  | text {l ls ps} (hl : Construct.ofLine l = .text) (hs : PrintsAs ls ps) :
    PrintsAs (l :: ls) (l :: ps)
  | block {l name body e ls ps} (hl : Construct.ofLine l = .block name)
    (hb : ∀ b ∈ body, Block.closes name (bare b) = false) (he : Block.closes name (bare e))
    (hs : PrintsAs ls ps) : PrintsAs (l :: body ++ e :: ls) (l :: body ++ e :: ps)
  | openBlock {l name body} (hl : Construct.ofLine l = .block name)
    (hb : ∀ b ∈ body, Block.closes name (bare b) = false) : PrintsAs (l :: body) (l :: body)
  | drawer {l inside properties e ls ps} (hl : Construct.ofLine l = .drawer)
    (hp : Drawer.Lists inside properties) (he : Drawer.closes (bare e)) (hs : PrintsAs ls ps) :
    PrintsAs (l :: inside ++ e :: ls)
      (Drawer.firstLine :: properties.map Drawer.propertyMarkup ++ Drawer.lastLine :: ps)
  | looseDrawer {l inside properties ls ps} (hl : Construct.ofLine l = .drawer)
    (hp : Drawer.Lists inside properties) (hn : Drawer.BreaksOff ls) (hs : PrintsAs ls ps) :
    PrintsAs (l :: inside ++ ls) (l :: inside ++ ps)

namespace Mode

-- All that comes of the lines, what is held back at their end included.
def entries (m : Mode) (ls : List Text) : List Entry :=
  (m.readAll ls).2 ++ (m.readAll ls).1.rest

theorem entries_cons (m : Mode) (l : Text) (ls : List Text) :
    m.entries (l :: ls) = (m.read l).2 ++ (m.read l).1.entries ls := by
  simp [entries, readAll]

theorem readPlain_eq (l : Text) :
    readPlain l =
      match Construct.ofLine l with
      | .heading h => (plain, [.heading h])
      | .block name => (block name, [.line l])
      | .drawer => (drawer [] [l], [])
      | .keyword k => (plain, [.keyword k])
      | .text => (plain, [.line l]) := by
  cases hh : Headline.ofLine? (bare l)
  case some => simp [readPlain, Construct.ofLine, hh]
  case none =>
    cases hb : Block.opens? (bare l)
    case some => simp [readPlain, Construct.ofLine, hh, hb]
    case none =>
      by_cases hd : Drawer.opens (bare l)
      case pos => simp [readPlain, Construct.ofLine, hh, hb, hd]
      case neg =>
        cases hk : Keyword.ofLine? (bare l) <;> simp [readPlain, Construct.ofLine, hh, hb, hd, hk]

theorem entries_block {name : Text} {body : List Text} (ls : List Text)
    (hb : ∀ b ∈ body, Block.closes name (bare b) = false) :
    (block name).entries (body ++ ls) = body.map .line ++ (block name).entries ls := by
  induction body
  case nil => rfl
  case cons b body hi =>
    have hc := hb b (List.mem_cons_self ..)
    have hs := hi fun x hx => hb x (List.mem_cons_of_mem _ hx)
    simp [entries_cons, read, hc, hs]

-- Inside a drawer nothing is given out, and all lines are kept.
theorem entries_lists {inside : List Text} {properties : List (Text × Text)}
    (h : Drawer.Lists inside properties) (ps : List (Text × Text)) (ks ls : List Text) :
    (drawer ps ks).entries (inside ++ ls) =
      (drawer (ps ++ properties) (ks ++ inside)).entries ls := by
  induction h generalizing ps ks
  case nil => simp
  case cons hp _ hi => simp [entries_cons, read, hp.left, hp.right, hi]

theorem entries_breaksOff {ls : List Text} (h : Drawer.BreaksOff ls) (ps : List (Text × Text))
    (ks : List Text) : (drawer ps ks).entries ls = ks.map .line ++ plain.entries ls := by
  cases ls
  case nil => simp [entries, readAll, rest]
  case cons l ls =>
    obtain ⟨hc, hp⟩ := h l rfl
    simp [entries_cons, read, hc, hp]

section Constructs

variable {l e name : Text} {h : Headline} {k : Keyword} {body inside : List Text}
  {properties : List (Text × Text)}

theorem entries_heading (hl : Construct.ofLine l = .heading h) (ls : List Text) :
    plain.entries (l :: ls) = .heading h :: plain.entries ls := by
  simp [entries_cons, read, readPlain_eq, hl]

theorem entries_keyword (hl : Construct.ofLine l = .keyword k) (ls : List Text) :
    plain.entries (l :: ls) = .keyword k :: plain.entries ls := by
  simp [entries_cons, read, readPlain_eq, hl]

theorem entries_text (hl : Construct.ofLine l = .text) (ls : List Text) :
    plain.entries (l :: ls) = .line l :: plain.entries ls := by
  simp [entries_cons, read, readPlain_eq, hl]

theorem entries_closedBlock (hl : Construct.ofLine l = .block name)
    (hb : ∀ b ∈ body, Block.closes name (bare b) = false) (he : Block.closes name (bare e))
    (ls : List Text) :
    plain.entries (l :: body ++ e :: ls) = (l :: body ++ [e]).map .line ++ plain.entries ls := by
  simp [entries_cons, read, readPlain_eq, hl, entries_block _ hb, he]

theorem entries_openBlock (hl : Construct.ofLine l = .block name)
    (hb : ∀ b ∈ body, Block.closes name (bare b) = false) :
    plain.entries (l :: body) = (l :: body).map .line := by
  have hr : (block name).entries body = body.map .line := by
    simpa [entries, readAll, rest] using entries_block [] hb
  simp [entries_cons, read, readPlain_eq, hl, hr]

theorem entries_closedDrawer (hl : Construct.ofLine l = .drawer) (hp : Drawer.Lists inside properties)
    (he : Drawer.closes (bare e)) (ls : List Text) :
    plain.entries (l :: inside ++ e :: ls) = .drawer ⟨properties⟩ :: plain.entries ls := by
  simp [entries_cons, read, readPlain_eq, hl, entries_lists hp, he]

theorem entries_looseDrawer {ls : List Text} (hl : Construct.ofLine l = .drawer)
    (hp : Drawer.Lists inside properties) (hn : Drawer.BreaksOff ls) :
    plain.entries (l :: inside ++ ls) = (l :: inside).map .line ++ plain.entries ls := by
  simp [entries_cons, read, readPlain_eq, hl, entries_lists hp, entries_breaksOff hn]

end Constructs

end Mode

namespace PrintsAs

variable {ls ps : List Text}

theorem length_eq (h : PrintsAs ls ps) : ps.length = ls.length := by
  induction h
  case drawer hp _ _ hi => simp [hi, hp.length_eq]
  all_goals simp_all

theorem flatten_eq (h : PrintsAs ls ps) :
    (Mode.plain.entries ls).flatMap Entry.markup = ps.flatten := by
  induction h
  case nil => rfl
  case heading hl _ hi          => simp [Mode.entries_heading hl, hi, Entry.markup]
  case keyword hl _ hi          => simp [Mode.entries_keyword hl, hi, Entry.markup]
  case text hl _ hi             => simp [Mode.entries_text hl, hi, Entry.markup]
  case block hl hb he _ hi      =>
    simp only [Mode.entries_closedBlock hl hb he, List.flatMap_append, Entry.markup_lines, hi]
    simp
  case openBlock hl hb          => rw [Mode.entries_openBlock hl hb, Entry.markup_lines]
  case drawer hl hp he _ hi     =>
    rw [Mode.entries_closedDrawer hl hp he, List.flatMap_cons, hi]
    simp [Entry.markup, Drawer.markup_eq_lines]
  case looseDrawer hl hp hn _ hi =>
    simp only [Mode.entries_looseDrawer hl hp hn, List.flatMap_append, Entry.markup_lines, hi]
    simp

end PrintsAs

-- An open drawer takes in properties until a line closes it or breaks it off.
theorem Drawer.exists_lists (ls : List Text) :
    ∃ inside properties after, ls = inside ++ after ∧ Lists inside properties ∧
      ((∃ e rest, after = e :: rest ∧ closes (bare e)) ∨ BreaksOff after) := by
  induction ls
  case nil => exact ⟨[], [], [], rfl, .nil, .inr fun _ h => nomatch h⟩
  case cons l ls hi =>
    cases hc : closes (bare l)
    case true => exact ⟨[], [], l :: ls, rfl, .nil, .inl ⟨l, ls, rfl, hc⟩⟩
    case false =>
      cases hp : property? (bare l)
      case none =>
        refine ⟨[], [], l :: ls, rfl, .nil, .inr ?_⟩
        rintro _ ⟨⟩
        exact ⟨hc, hp⟩
      case some p =>
        obtain ⟨inside, properties, after, rfl, hs, ha⟩ := hi
        exact ⟨l :: inside, p :: properties, after, rfl, .cons ⟨hc, hp⟩ hs, ha⟩

theorem exists_printsAs (ls : List Text) : ∃ ps, PrintsAs ls ps := by
  match ls with
  | [] => exact ⟨[], .nil⟩
  | l :: ls =>
    cases hl : Construct.ofLine l
    case heading h =>
      have ⟨ps, hs⟩ := exists_printsAs ls
      exact ⟨_, .heading hl hs⟩
    case keyword k =>
      have ⟨ps, hs⟩ := exists_printsAs ls
      exact ⟨_, .keyword hl hs⟩
    case text =>
      have ⟨ps, hs⟩ := exists_printsAs ls
      exact ⟨_, .text hl hs⟩
    case block name =>
      cases hf : ls.find? (Block.closes name <| bare ·)
      case none => exact ⟨_, .openBlock hl <| by simpa using hf⟩
      case some e =>
        have ⟨he, body, rest, hr, hb⟩ := List.find?_eq_some_iff_append.mp hf
        have ⟨ps, hs⟩ := exists_printsAs rest
        rw [hr]
        exact ⟨_, .block hl (by simpa using hb) he hs⟩
    case drawer =>
      have ⟨inside, properties, after, hr, hp, ha⟩ := Drawer.exists_lists ls
      cases ha
      case inl h =>
        have ⟨e, rest, ha, he⟩ := h
        have ⟨ps, hs⟩ := exists_printsAs rest
        rw [hr, ha]
        exact ⟨_, .drawer hl hp he hs⟩
      case inr hn =>
        have ⟨ps, hs⟩ := exists_printsAs after
        rw [hr]
        exact ⟨_, .looseDrawer hl hp hn hs⟩
termination_by ls.length
decreasing_by all_goals simp_all <;> omega

-- No line is lost, doubled or moved: there is one piece for each line, and the pieces in the order
-- of the lines are the whole markup.
theorem markup_ofText_by_lines (t : Text) :
    (∃ ps, PrintsAs (completed (lines t)) ps) ∧
      ∀ ps, PrintsAs (completed (lines t)) ps →
        ps.length = (completed (lines t)).length ∧ (Document.ofText t).markup = ps.flatten :=
  ⟨exists_printsAs _, fun _ h =>
    ⟨h.length_eq, (Document.markup_ofEntries _).trans h.flatten_eq⟩⟩

end Transclusion
