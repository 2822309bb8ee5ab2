import Transclusion.Proofs.Cache.Runs
import Transclusion.Proofs.Desk.Fetching

namespace Transclusion

-- The directive is neither too deep nor inside itself.
def Directive.Admitted (d : Directive) (maxDepth : Int) (ancestors : List Text) : Prop :=
  ancestors.length < maxDepth ∧ d.sourceId ∉ ancestors

-- All that a resolution leaves behind, for each of its ways to end.
structure Resolution.Atomic (lib : Library) (maxDepth : Int) (ancestors : List Text) (d : Directive)
    (c : Cache) (x : Resolution) : Prop where
  refused : maxDepth ≤ ancestors.length ∨ d.sourceId ∈ ancestors →
    (∃ f, x.outcome = .error f) ∧ x.accesses = [] ∧ x.cache = c
  found : ∀ e, d.Admitted maxDepth ancestors → c.find? d.identity = some e →
    x.outcome = .ok ⟨e, d.sourceName⟩ ∧ x.accesses = [] ∧
      ∃ front back, c.entries = front ++ (d.identity, e) :: back ∧
        x.cache = { c with entries := front ++ back ++ [(d.identity, e)] }
  failed : ∀ f, d.Admitted maxDepth ancestors → c.find? d.identity = none → x.outcome = .error f →
    x.cache = c
  stored : ∀ s, d.Admitted maxDepth ancestors → c.find? d.identity = none → x.outcome = .ok s →
    (∃ others, others = (if c.length = c.capacity then c.entries.tail else c.entries) ∧
      x.cache = { c with entries := others ++ [(d.identity, s.included)] }) ∧
    ∀ ancestors', d.Admitted maxDepth ancestors' →
      (resolve lib (.ofInt maxDepth) ancestors' d x.cache).outcome = x.outcome ∧
        (resolve lib (.ofInt maxDepth) ancestors' d x.cache).accesses = []

section Checks

variable {maxDepth : Int} {ancestors : List Text} {d : Directive}

theorem Directive.admitted_iff :
    d.Admitted maxDepth ancestors ↔ refusal? (.ofInt maxDepth) ancestors d = none := by
  rw [refusal?_eq_none_iff, Admitted, DepthLimit.ofInt]
  refine and_congr_left fun _ => ?_
  simp only
  omega

theorem Directive.not_admitted_iff :
    ¬d.Admitted maxDepth ancestors ↔ maxDepth ≤ ancestors.length ∨ d.sourceId ∈ ancestors := by
  rw [Admitted, not_and_or, not_lt, not_not]

end Checks

namespace Cache.WellFormed

variable {c : Cache} {d : Directive} {k : Directive.Identity} {e : Included} {lib : Library}
  {limit : DepthLimit} {maxDepth : Int} {ancestors : List Text}

section Places

-- What is found goes to the end, and all else stays in its order.
theorem exists_touch (h : c.WellFormed) (hf : c.find? k = some e) :
    ∃ front back, c.entries = front ++ (k, e) :: back ∧
      c.touch k e = { c with entries := front ++ back ++ [(k, e)] } := by
  obtain ⟨front, back, hs⟩ := List.append_of_mem (mem_of_find? hf)
  have hn := h.nodup
  simp only [keys, hs, List.map_append, List.map_cons, List.nodup_append, List.nodup_cons] at hn
  obtain ⟨_, ⟨hb, _⟩, hd⟩ := hn
  have hk : k ∉ front.map (·.1) := fun hk => hd k hk k List.mem_cons_self rfl
  refine ⟨front, back, hs, ?_⟩
  rw [touch, without, hs, List.filter_append, List.filter_cons_of_neg (by simp), filter_of_not_mem hb,
    filter_of_not_mem hk]

-- What is new goes to the end, and the first entry leaves if there is no space.
theorem put_of_not_found (h : c.WellFormed) (hf : c.find? d.identity = none) (e : Included) :
    c.put d e =
      { c with
        entries := (if c.length = c.capacity then c.entries.tail else c.entries) ++ [(d.identity, e)] } := by
  have hk := find?_eq_none_iff.mp hf
  have hb := h.bounded
  have ht : d.identity ∉ c.entries.tail.map (·.1) :=
    fun hm => hk (((List.tail_sublist _).map _).subset hm)
  by_cases hl : c.length = c.capacity
  case pos =>
    have hm : c.makeRoom d.identity = { c with entries := c.entries.tail } := by
      simp [makeRoom, hf, hl]
    rw [if_pos hl, Cache.put, hm, touch, without, filter_of_not_mem ht]
  case neg =>
    have hm : c.makeRoom d.identity = c := by
      have hn : ¬c.capacity ≤ c.length := by omega
      simp [makeRoom, hn]
    rw [if_neg hl, Cache.put, hm, touch, without, filter_of_not_mem hk]

theorem find?_put (h : c.WellFormed) (d : Directive) (e : Included) :
    (c.put d e).find? d.identity = some e :=
  (h.put d e).find?_of_mem (List.mem_append_right _ List.mem_cons_self)

end Places

-- One resolution, whatever it comes to.
theorem atomic (h : c.WellFormed) (lib : Library) (maxDepth : Int) (ancestors : List Text)
    (d : Directive) :
    (resolve lib (.ofInt maxDepth) ancestors d c).Atomic lib maxDepth ancestors d c := by
  have hs := resolves lib (.ofInt maxDepth) ancestors d c
  generalize resolve lib (.ofInt maxDepth) ancestors d c = x at hs
  have hn : refusal? (.ofInt maxDepth) ancestors d ≠ none ↔
      maxDepth ≤ ancestors.length ∨ d.sourceId ∈ ancestors := by
    rw [Ne, ←Directive.admitted_iff, Directive.not_admitted_iff]
  constructor
  case refused =>
    intro hr
    cases hs
    case refused => exact ⟨⟨_, rfl⟩, rfl, rfl⟩
    all_goals exact absurd ‹refusal? _ _ _ = none› (hn.mpr hr)
  case found =>
    intro e ha he
    rw [Directive.admitted_iff] at ha
    cases hs
    case refused hr => cases ha.symm.trans hr
    case hit hc =>
      cases he.symm.trans hc
      exact ⟨rfl, rfl, h.exists_touch he⟩
    all_goals cases he.symm.trans ‹_ = none›
  case failed =>
    intro f ha hf ho
    cases hs
    case refused => rfl
    case failed  => rfl
    case hit     => cases ho
    case fetched => cases ho
  case stored =>
    intro s ha hf ho
    cases hs <;> cases ho
    case hit hc => cases hf.symm.trans hc
    case fetched e log _ _ _ =>
      refine ⟨⟨_, rfl, h.put_of_not_found hf e⟩, fun ancestors' ha' => ?_⟩
      rw [Directive.admitted_iff] at ha'
      simp only [resolve, ha', get_of_some (h.find?_put d e), and_self]

section Runs

theorem resolve (h : c.WellFormed) : (resolve lib limit ancestors d c).cache.WellFormed := by
  have hs := resolves lib limit ancestors d c
  generalize Transclusion.resolve lib limit ancestors d c = x at hs ⊢
  cases hs
  case refused     => exact h
  case failed      => exact h
  case fetched e _ _ _ _ => exact h.put d e
  case hit e _ hc =>
    have hg := h.step (.get d)
    rwa [Cache.step, get_of_some hc] at hg

theorem resolveAll {r : Renderer} (h : c.WellFormed) (tasks : List Task) :
    (r.resolveAll tasks c).2.WellFormed := by
  induction tasks generalizing c
  case nil          => exact h
  case cons t ts hi => exact hi h.resolve

theorem invalidateRefs (h : c.WellFormed) (refs : List Text) : (c.invalidateRefs refs).2.WellFormed := by
  induction refs generalizing c
  case nil => exact h
  case cons ref refs hi =>
    refine hi ?_
    have ha := h.after ((c.sourceIdsFor ref).map .invalidate)
    rwa [Cache.after, List.foldl_map] at ha

end Runs

end Cache.WellFormed

namespace Desk

variable {d : Desk} {s : Step}

theorem wellFormed_of_asks (h : d.cache.WellFormed) (ha : s.asks) :
    (d.step s).desk.cache.WellFormed := by
  have hr := h.resolveAll (r := d.renderer {}) ((d.calls s).map (·.task))
  rwa [resolveAll_calls ha] at hr

theorem wellFormed_step (h : d.cache.WellFormed) (s : Step) : (d.step s).desk.cache.WellFormed := by
  cases s
  case resolve | expand | render | check => exact wellFormed_of_asks h rfl
  case invalidate id       => exact h.step (.invalidate id)
  case invalidateRefs refs => exact h.invalidateRefs refs
  case clear               => exact h.step .clear
  all_goals exact h

theorem wellFormed_after (h : d.cache.WellFormed) (ss : List Step) :
    (d.after ss).cache.WellFormed := by
  induction ss generalizing d
  case nil          => exact h
  case cons s ss hi => exact hi (wellFormed_step h s)

theorem limit_after (d : Desk) (ss : List Step) : (d.after ss).limit = d.limit := by
  induction ss generalizing d
  case nil => rfl
  case cons s ss hi => rw [after, hi, limit_step]

-- Whatever a desk was used for, one more resolution changes its cache by one entry at most, and only if
-- it succeeds.
theorem resolves_atomically {n : Int} (hn : 1 ≤ n) :
    ∃ cache, Cache.ofSize n = .ok cache ∧
      ∀ (shelf : Shelf) (maxDepth : Int) (steps : List Step) (ancestors : List Text) (x : Directive),
        let now := ({ shelf, limit := .ofInt maxDepth, cache } : Desk).after steps
        (resolve now.shelf.library now.limit ancestors x now.cache).Atomic now.shelf.library maxDepth
          ancestors x now.cache := by
  have ⟨cache, hc, _, _, hw⟩ := Cache.exists_ofSize hn
  refine ⟨cache, hc, fun shelf maxDepth steps ancestors x => ?_⟩
  intro now
  have hl : now.limit = .ofInt maxDepth := limit_after _ steps
  have hw : now.cache.WellFormed := wellFormed_after hw steps
  rw [hl]
  exact hw.atomic now.shelf.library maxDepth ancestors x

-- The attic is in the cache no more when the hall was rendered, and takes its place back.
theorem resolves_atomically_rooms :
    let attic : Directive := { link := { body := "attic.org".toList } }
    ∃ cache, Cache.ofSize 1 = .ok cache ∧
      let start : Desk := { shelf := Shelf.rooms, limit := .ofInt 16, cache }
      let now := start.after [.render [] {} Shelf.rooms.hall]
      let x := resolve now.shelf.library now.limit [] attic now.cache
      now.cache.keys.map (·.link.body) = ["hall.org".toList] ∧
        x.cache.keys.map (·.link.body) = ["attic.org".toList] ∧
        x.Atomic now.shelf.library 16 [] attic now.cache := by
  intro attic
  have ⟨cache, hc, h⟩ := resolves_atomically (n := 1) (by decide)
  refine ⟨cache, hc, ?_, ?_, h Shelf.rooms 16 _ [] attic⟩ <;> cases Except.ok.inj hc <;> decide +kernel

end Desk

end Transclusion
