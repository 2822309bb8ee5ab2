import Mathlib.Data.List.Perm.Basic
import Transclusion.Proofs.Expansion.Coherence
import Transclusion.Proofs.Expansion.Locality

namespace Transclusion

section Checks

variable {lib : Library} {limit limit' : DepthLimit} {ancestors ancestors' : List Text} {d : Directive}

theorem refusal?_of_le (hb : limit.bound ≤ limit'.bound)
    (hd : refusal? limit ancestors d ≠ some (.tooDeep limit)) :
    refusal? limit' ancestors d = refusal? limit ancestors d := by
  have hl : ancestors.length < limit.bound := by
    by_contra hl
    exact hd (refusal?_eq_tooDeep_iff.mpr ⟨Nat.not_lt.mp hl, rfl⟩)
  have hl' := Nat.lt_of_lt_of_le hl hb
  simp only [refusal?, if_neg (Nat.not_le.mpr hl), if_neg (Nat.not_le.mpr hl')]

theorem fresh_of_le (hb : limit.bound ≤ limit'.bound)
    (hd : fresh lib limit ancestors d ≠ .error (.tooDeep limit)) :
    fresh lib limit' ancestors d = fresh lib limit ancestors d := by
  have hr : refusal? limit ancestors d ≠ some (.tooDeep limit) := by
    intro hr
    exact hd (by rw [fresh, hr])
  rw [fresh, fresh, refusal?_of_le hb hr]

theorem refusal?_of_subset (hn : ancestors'.Nodup) (hs : ancestors' ⊆ ancestors)
    (h : refusal? limit ancestors d = none) : refusal? limit ancestors' d = none := by
  have ⟨hl, hm⟩ := refusal?_eq_none_iff.mp h
  have hle := (List.subperm_of_subset hn hs).length_le
  exact refusal?_eq_none_iff.mpr ⟨Nat.lt_of_le_of_lt hle hl, fun h => hm (hs h)⟩

-- Ancestors and limit are for the checks only.
theorem resolve_of_refusal? (h : refusal? limit' ancestors' d = refusal? limit ancestors d)
    (cache : Cache) : resolve lib limit' ancestors' d cache = resolve lib limit ancestors d cache := by
  simp only [resolve, h]

theorem refusal?_of_resolve_ok {cache : Cache} {s : Success}
    (h : (resolve lib limit ancestors d cache).outcome = .ok s) :
    refusal? limit ancestors d = none := by
  cases hr : refusal? limit ancestors d
  case none   => rfl
  case some f => simp [resolve, hr] at h

end Checks

-- No call in it is too deep for the limit.
def Expansion.HasDepth {α : Type} (x : Expansion α) (limit : DepthLimit) : Prop :=
  ∀ c ∈ x.calls, c.outcome ≠ .error (.tooDeep limit)

instance {α : Type} (x : Expansion α) (limit : DepthLimit) : Decidable (x.HasDepth limit) :=
  inferInstanceAs (Decidable (∀ c ∈ x.calls, c.outcome ≠ .error (.tooDeep limit)))

namespace Renderer

variable {r : Renderer} {limit : DepthLimit} {n m : Nat} {tasks : List Task} {c c' : Cache}
variable {x : Expansion (List Text)}

section Levels

-- More levels than may follow are not used.
theorem Expands.expandAll_of_le (h : r.Expands n tasks c x) (hc : c.All Cache.Placed)
    (hn : ∀ t ∈ tasks, r.levelsLeft t.ancestors ≤ n) (hm : n ≤ m) : r.expandAll m tasks c = x := by
  induction h generalizing m
  case last hf => simp only [expandAll, hf]
  case starved hf =>
    obtain ⟨u, hu⟩ := List.exists_mem_of_ne_nil _ hf
    exact absurd (levelsLeft_lt_of_mem_inner hc hn hu) (Nat.not_lt_zero _)
  case deeper n tasks c below hf _ hr =>
    cases m
    case zero   => cases hm
    case succ m =>
      have hb := hr (all_resolveAll gives_placed hc)
        (fun _ hu => Nat.le_of_lt_succ (levelsLeft_lt_of_mem_inner hc hn hu))
        (Nat.le_of_succ_le_succ hm)
      rw [expandAll]
      simp only [hb]

-- A call that is not too deep is the same with a larger limit.
theorem resolveAll_bare_of_le (hb : r.limit.bound ≤ limit.bound) (hc : c.Coherent r.library)
    (hc' : c'.Coherent r.library)
    (hd : ∀ y ∈ (r.resolveAll tasks c).1, y.outcome ≠ .error (.tooDeep r.limit)) :
    ({ r with limit }.resolveAll tasks c').1.map Call.bare =
      (r.resolveAll tasks c).1.map Call.bare := by
  rw [resolveAll_bare hc, resolveAll_bare (r := { r with limit }) hc']
  refine List.map_congr_left fun t ht => ?_
  rw [←resolveAll_tasks (r := r) tasks c] at ht
  obtain ⟨y, hm, rfl⟩ := List.mem_map.mp ht
  have ho := (madeWith_of_mem_resolveAll gives_fits hc y hm).outcome_eq
  simp only [freshCall, fresh_of_le hb (ho ▸ hd y hm)]

theorem resolveAll_of_le (hb : r.limit.bound ≤ limit.bound) (hc : c.Coherent r.library)
    (hc' : c'.Coherent r.library)
    (hd : ∀ y ∈ (r.resolveAll tasks c).1, y.outcome ≠ .error (.tooDeep r.limit)) :
    ({ r with limit }.resolveAll tasks c').1.flatMap Call.inner =
        (r.resolveAll tasks c).1.flatMap Call.inner ∧
      { r with limit }.gather ({ r with limit }.resolveAll tasks c').1 =
        r.gather (r.resolveAll tasks c).1 := by
  have hs : { r with limit }.assembleAll = r.assembleAll := funext₂ (assembleAll_congr rfl)
  have hg : { r with limit }.gather = r.gather := by
    funext calls texts
    rw [gather, gather, hs]
  rw [hg]
  exact congr_of_bare (resolveAll_bare_of_le hb hc hc' hd)

-- The two expansions go through the same levels.
theorem Expands.result_of_le (h : r.Expands n tasks c x) (hb : r.limit.bound ≤ limit.bound)
    (hc : c.Coherent r.library) (hc' : c'.Coherent r.library) (hd : x.HasDepth r.limit) :
    ({ r with limit }.expandAll n tasks c').result = x.result := by
  induction h generalizing c'
  case last hf =>
    have ⟨hi, hg⟩ := resolveAll_of_le hb hc hc' hd
    simp only [expandAll, hi, hf, hg]
  case starved hf =>
    have ⟨hi, hg⟩ := resolveAll_of_le hb hc hc' hd
    simp only [expandAll, hi, hg]
  case deeper tasks c below hf _ hr =>
    obtain ⟨hd, hl⟩ := List.forall_mem_append.mp hd
    have ⟨hi, hg⟩ := resolveAll_of_le hb hc hc' hd
    have hx' : ({ r with limit }.resolveAll tasks c').2.Coherent r.library :=
      all_resolveAll (r := { r with limit }) gives_fits hc'
    have hb := hr (all_resolveAll gives_fits hc) hx' hl
    rw [expandAll]
    simp only [hi, hg, hb]

end Levels

section Requests

variable {ancestors : List Text} {t : Tree} {d : Directive}

theorem expandAll_of_le (ht : ∀ u ∈ tasks, u.ancestors = ancestors)
    (hb : r.limit.bound ≤ limit.bound) (hc : c.Coherent r.library) (hc' : c'.Coherent r.library)
    (hd : (r.expandAll (r.levelsLeft ancestors) tasks c).HasDepth r.limit) :
    ({ r with limit }.expandAll ({ r with limit }.levelsLeft ancestors) tasks c').result =
      (r.expandAll (r.levelsLeft ancestors) tasks c).result := by
  have hn : ∀ u ∈ tasks, r.levelsLeft u.ancestors ≤ r.levelsLeft ancestors :=
    fun u hu => Nat.le_of_eq (congrArg r.levelsLeft (ht u hu))
  have hl : r.levelsLeft ancestors ≤ { r with limit }.levelsLeft ancestors :=
    Nat.sub_le_sub_right hb _
  have he := (expands ..).expandAll_of_le (hc.imp fun _ _ => placed_of_fits) hn hl
  rw [←he] at hd ⊢
  exact (expands ..).result_of_le hb hc hc' hd

theorem render_of_le (hb : r.limit.bound ≤ limit.bound) (hc : c.Coherent r.library)
    (hc' : c'.Coherent r.library) (hd : (r.render ancestors t c).HasDepth r.limit) :
    ({ r with limit }.render ancestors t c').result = (r.render ancestors t c).result := by
  cases ht : t.directives
  case error => simp only [render, ht]
  case ok ds =>
    simp only [render, ht] at hd ⊢
    rw [expandAll_of_le (by simp) hb hc hc' hd]

theorem expand_of_le (hb : r.limit.bound ≤ limit.bound) (hc : c.Coherent r.library)
    (hc' : c'.Coherent r.library) (hd : (r.expand ancestors d c).HasDepth r.limit) :
    ({ r with limit }.expand ancestors d c').result = (r.expand ancestors d c).result := by
  simp only [expand] at hd ⊢
  rw [expandAll_of_le (by simp) hb hc hc' hd]

-- A depth limit that is large enough cannot be told from a larger one, and what is resolved inside
-- some places is resolved inside any of them.
theorem limit_invisible (lib : Library) (style : Style) :
    (∀ n m : Int, n ≤ m → ∀ c c' : Cache, c.Coherent lib → c'.Coherent lib →
      let r : Renderer := { library := lib, limit := .ofInt n, style }
      let r' : Renderer := { library := lib, limit := .ofInt m, style }
      (∀ ancestors t, (r.render ancestors t c).HasDepth r.limit →
        (r'.render ancestors t c').result = (r.render ancestors t c).result ∧
          ((∀ ancestors' u, r.Reaches ancestors t ancestors' u → Legible u.keywords) →
            ∃ text, (r.render ancestors t c).result = .ok text)) ∧
      ∀ ancestors d, (r.expand ancestors d c).HasDepth r.limit →
        (r'.expand ancestors d c').result = (r.expand ancestors d c).result) ∧
    ∀ limit ancestors ancestors' d, ancestors'.Nodup → ancestors' ⊆ ancestors →
      (∀ c s, (resolve lib limit ancestors d c).outcome = .ok s →
        resolve lib limit ancestors' d c = resolve lib limit ancestors d c) ∧
      ∀ c c' s, c.Coherent lib → c'.Coherent lib → (resolve lib limit ancestors d c).outcome = .ok s →
        (resolve lib limit ancestors' d c').outcome = .ok s := by
  constructor
  case left =>
    intro n m hnm c c' hc hc' r r'
    have hb : r.limit.bound ≤ r'.limit.bound := Int.toNat_le_toNat hnm
    refine ⟨fun ancestors t hd => ⟨render_of_le hb hc hc' hd, fun hl => ?_⟩, fun ancestors d hd => ?_⟩
    · exact ⟨_, render_of_legible hc hl⟩
    · exact expand_of_le hb hc hc' hd
  case right =>
    intro limit ancestors ancestors' d hn hs
    have he {c s} (h : (resolve lib limit ancestors d c).outcome = .ok s) :
        refusal? limit ancestors' d = refusal? limit ancestors d := by
      have hr := refusal?_of_resolve_ok h
      rw [hr, refusal?_of_subset hn hs hr]
    refine ⟨fun c s h => resolve_of_refusal? (he h) c, fun c c' s hc hc' h => ?_⟩
    rw [resolve_of_refusal? (he h), hc'.resolve_outcome, ←hc.resolve_outcome, h]

open Transclusion.Shelf (rooms) in
-- The attic in the hall includes the hall, and there the attic is circular: nothing is looked up at a
-- fourth level.
theorem limit_invisible_rooms :
    let r : Renderer := { rooms.renderer with limit := .ofInt 3 }
    let r' : Renderer := { rooms.renderer with limit := .ofInt 20 }
    let attic : Directive := { link := { body := "attic.org".toList } }
    let hall := "hall.org".toList
    ((r.render [] rooms.hall rooms.cache).HasDepth r.limit ∧
      ¬({ r with limit := .ofInt 2 }.render [] rooms.hall rooms.cache).HasDepth (.ofInt 2) ∧
      ∃ text, (r.render [] rooms.hall rooms.cache).result = .ok text ∧
        (r'.render [] rooms.hall { capacity := 2 }).result = .ok text) ∧
      ∃ s, (resolve rooms.library r.limit [hall] attic rooms.cache).outcome = .ok s ∧
        (resolve rooms.library r.limit [] attic { capacity := 2 }).outcome = .ok s := by
  intro r r' attic hall
  have hc : rooms.cache.Coherent rooms.library := Cache.Coherent.resolve (.of_empty rfl)
  have hd : (r.render [] rooms.hall rooms.cache).HasDepth r.limit := by decide +kernel
  have hl : ∀ ancestors u, r.Reaches [] rooms.hall ancestors u → Legible u.keywords :=
    fun _ _ hr => hr.legible (fun _ _ => Shelf.legible_fetch (s := rooms) (by decide +kernel))
      (by decide +kernel)
  have ⟨hi, hs⟩ := limit_invisible rooms.library {}
  have ⟨hr, hx⟩ := (hi 3 20 (by decide) _ { capacity := 2 } hc (.of_empty rfl)).left [] _ hd
  have ⟨text, ht⟩ := hx hl
  refine ⟨⟨hd, by decide +kernel, text, ht, hr.trans ht⟩, ?_⟩
  have hk : (resolve rooms.library r.limit [hall] attic rooms.cache).outcome.isOk := by
    decide +kernel
  cases ho : (resolve rooms.library r.limit [hall] attic rooms.cache).outcome
  case error =>
    rw [ho] at hk
    cases hk
  case ok s =>
    have hb := (hs r.limit [hall] [] attic .nil (List.nil_subset _)).right
    exact ⟨s, rfl, hb _ _ s hc (.of_empty rfl) ho⟩

end Requests

end Renderer

end Transclusion
