import Transclusion.Proofs.Outline.Placing

namespace Transclusion

variable {α σ : Type}

-- A call of a callback, with the states before and after it. `goesOn` is the answer.
structure Asking (α σ : Type) where
  node : α
  before : σ
  goesOn : Bool
  after : σ

-- Asks the same, and notes each call behind those that came before.
def noting (ask : α → σ → Bool × σ) (x : α) (s : σ × List (Asking α σ)) :
    Bool × (σ × List (Asking α σ)) :=
  let (b, s') := ask x s.1
  (b, s', s.2 ++ [⟨x, s.1, b, s'⟩])

-- The calls of a walk over `nodes` that starts in the state `s` and comes to `r`.
structure Sees (ask : α → σ → Bool × σ) (nodes : List α) (s : σ) (calls : List (Asking α σ))
    (r : Bool × σ) : Prop where
  answered : ∀ c ∈ calls, ask c.node c.before = (c.goesOn, c.after)
  inOrder : calls.map (·.node) <+: nodes
  threaded : s :: calls.map (·.after) = calls.map (·.before) ++ [r.2]
  notAfter : ∀ c ∈ calls.dropLast, c.goesOn
  complete : r.1 → calls.map (·.node) = nodes
  stopped : r.1 = false ↔ ∃ c ∈ calls, c.goesOn = false

namespace Sees

variable {ask : α → σ → Bool × σ} {x : α} {xs : List α} {s s' : σ} {calls : List (Asking α σ)}
  {r : Bool × σ}

theorem nil : Sees ask [] s [] (true, s) where
  answered := List.forall_mem_nil _
  inOrder := List.nil_prefix
  threaded := rfl
  notAfter := List.forall_mem_nil _
  complete _ := rfl
  stopped := by simp

theorem stop (h : ask x s = (false, s')) : Sees ask (x :: xs) s [⟨x, s, false, s'⟩] (false, s') where
  answered := List.forall_mem_singleton.mpr h
  inOrder := List.prefix_append [x] xs
  threaded := rfl
  notAfter := List.forall_mem_nil _
  complete h := nomatch h
  stopped := by simp

theorem next (h : ask x s = (true, s')) (ht : Sees ask xs s' calls r) :
    Sees ask (x :: xs) s (⟨x, s, true, s'⟩ :: calls) r where
  answered := List.forall_mem_cons.mpr ⟨h, ht.answered⟩
  inOrder := List.cons_prefix_cons.mpr ⟨rfl, ht.inOrder⟩
  threaded := congrArg (s :: ·) ht.threaded
  notAfter := by
    cases calls
    case nil  => exact List.forall_mem_nil _
    case cons => exact List.forall_mem_cons.mpr ⟨rfl, ht.notAfter⟩
  complete hr := congrArg (x :: ·) (ht.complete hr)
  stopped := by simp [ht.stopped]

end Sees

section Lists

variable {ask : α → σ → Bool × σ} {x : α} {s s' : σ}

theorem askEach_of_stop (h : ask x s = (false, s')) (xs : List α) :
    askEach ask (x :: xs) s = (false, s') := by
  rw [askEach, h, andThen]

theorem askEach_of_next (h : ask x s = (true, s')) (xs : List α) :
    askEach ask (x :: xs) s = askEach ask xs s' := by
  rw [askEach, h, andThen]

theorem noting_of_ask {b : Bool} (h : ask x s = (b, s')) (noted : List (Asking α σ)) :
    noting ask x (s, noted) = (b, s', noted ++ [⟨x, s, b, s'⟩]) := by
  rw [noting, h]

-- Noting changes neither the answer nor the state, and what is noted is all that was asked.
theorem exists_sees (ask : α → σ → Bool × σ) (xs : List α) (s : σ) (noted : List (Asking α σ)) :
    ∃ calls, askEach (noting ask) xs (s, noted) =
        ((askEach ask xs s).1, (askEach ask xs s).2, noted ++ calls) ∧
      Sees ask xs s calls (askEach ask xs s) := by
  induction xs generalizing s noted
  case nil => exact ⟨[], by rw [List.append_nil]; rfl, .nil⟩
  case cons x xs hi =>
    rcases hx : ask x s with ⟨_ | _, s'⟩
    case false =>
      rw [askEach_of_stop hx, askEach_of_stop (noting_of_ask hx noted)]
      exact ⟨[⟨x, s, false, s'⟩], rfl, .stop hx⟩
    case true =>
      rw [askEach_of_next hx, askEach_of_next (noting_of_ask hx noted)]
      have ⟨calls, hn, hs⟩ := hi s' (noted ++ [⟨x, s, true, s'⟩])
      exact ⟨⟨x, s, true, s'⟩ :: calls, by rw [hn, List.append_assoc]; rfl, .next hx hs⟩

end Lists

namespace Tree

-- A section tree is itself a section. A document is none.
def self? : Tree → Option Section
  | whole _ => none
  | part s => some s

theorem flatMap_preorder (f : Forest) : (f.toList.flatMap fun s => (part s).preorder) = f.preorder := by
  induction f
  case nil               => rfl
  case cons h c i r _ hr => rw [Forest.toList, List.flatMap_cons, hr, Forest.preorder]; rfl

theorem preorder_eq (t : Tree) :
    t.preorder = t.self?.toList ++ t.sections.toList.flatMap fun s => (part s).preorder := by
  rw [flatMap_preorder]
  cases t <;> rfl

end Tree

-- The keywords, and what prints before, between and behind their lines.
theorem exists_gaps (ns : List Item) :
    ∃ gaps : List Text, gaps.length = (ns.filterMap Item.keyword?).length + 1 ∧
      ∀ line, ns.flatMap (Item.markupWith line) =
        interleave gaps ((ns.filterMap Item.keyword?).map line) := by
  induction ns
  case nil => exact ⟨[[]], rfl, fun _ => rfl⟩
  case cons n ns hi =>
    obtain ⟨gs, hl, hg⟩ := hi
    cases hk : n.keyword?
    case none =>
      have hn : gs ≠ [] := List.ne_nil_of_length_eq_add_one hl
      refine ⟨gs.modifyHead (n.markup ++ ·), by simp [hk, hl], fun line => ?_⟩
      simp [hk, hg, interleave_modifyHead hn, Item.markupWith]
    case some k =>
      refine ⟨[] :: gs, by simp [hk, hl], fun line => ?_⟩
      simp [hk, hg, interleave_cons, Item.markupWith]

namespace Tree

-- Both walks see what comes first in their order: sections before those nested in them, and keywords
-- as their lines follow one another in print.
theorem visits_see_prefix (t : Tree) :
    (∀ (ask : Section → σ → Bool × σ) s, ∃ calls,
      t.visitSections (noting ask) (s, []) =
          ((t.visitSections ask s).1, (t.visitSections ask s).2, calls) ∧
        Sees ask t.preorder s calls (t.visitSections ask s)) ∧
    (∀ (ask : Keyword → σ → Bool × σ) s, ∃ calls,
      t.visitKeywords (noting ask) (s, []) =
          ((t.visitKeywords ask s).1, (t.visitKeywords ask s).2, calls) ∧
        Sees ask t.keywords s calls (t.visitKeywords ask s)) ∧
    t.preorder = t.self?.toList ++ t.sections.toList.flatMap (fun s => (part s).preorder) ∧
    ∃ gaps : List Text, gaps.length = t.keywords.length + 1 ∧
      t.markup = interleave gaps (t.keywords.map Keyword.markup) ∧
      ∀ line, t.markupWith line = interleave gaps (t.keywords.map line) := by
  refine ⟨fun ask s => ?_, fun ask s => ?_, t.preorder_eq, ?_⟩
  · simpa only [visitSections_eq_askEach, List.nil_append] using exists_sees ask t.preorder s []
  · simpa only [visitKeywords_eq_askEach, List.nil_append] using exists_sees ask t.keywords s []
  · obtain ⟨gaps, hl, hg⟩ := exists_gaps t.items
    rw [←keywords_eq_items] at hl hg
    exact ⟨gaps, hl, t.markupWith_keyword_markup ▸ hg Keyword.markup, hg⟩

end Tree

end Transclusion
