import Transclusion.Proofs.Expansion.Ends
import Transclusion.Proofs.Link.Location
import Transclusion.Proofs.Shelf.Documents

namespace Transclusion

-- The place of the links with the scheme and the body of this one, and of no others.
def Link.IsPlace (id : Text) (l : Link) : Prop :=
  ∀ l' : Link, l'.IsRead → (l'.location = id ↔ l'.SameTarget l)

namespace Directive

variable {d : Directive}

def IsRead (d : Directive) : Prop :=
  ∃ k, ofKeyword k = .ok (some d)

theorem IsRead.link (h : d.IsRead) : d.link.IsRead := by
  have ⟨k, hk⟩ := h
  rw [ofKeyword] at hk
  split at hk
  case isTrue => cases hk
  case isFalse =>
    split at hk
    case h_1 => cases hk
    case h_2 raw description rest _ =>
      split at hk
      case h_1 => cases hk
      case h_2 link hl =>
        cases hv : readLevel (Text.trim rest) <;> simp only [hv, Except.map] at hk <;> cases hk
        exact ⟨raw, hl⟩

theorem IsRead.isPlace (h : d.IsRead) : d.link.IsPlace d.sourceId :=
  fun _ hl => hl.location_eq_iff h.link

theorem isRead_of_mem_occurrences {t : Tree} (h : d ∈ t.occurrences) : d.IsRead := by
  have ⟨k, _, hk⟩ := List.mem_filterMap.mp h
  rw [Keyword.directive?] at hk
  split at hk
  case h_1 d' ho => exact ⟨k, hk ▸ ho⟩
  case h_2 => cases hk

end Directive

-- A task of an expansion of `ds`, with the calls around it, the nearest first. It is in what they
-- include.
inductive Encloses (ds : List Directive) (given : List Text) (calls : List Call) :
    List Call → Task → Prop
  | top {d} (hd : d ∈ ds) : Encloses ds given calls [] ⟨d, given⟩
  | inside {around c s d} (hc : c ∈ calls) (ha : Encloses ds given calls around c.task)
    (hs : c.outcome = .ok s) (hd : d ∈ s.included.content.occurrences) :
    Encloses ds given calls (c :: around) ⟨d, c.task.ancestors.insert s.included.sourceId⟩

namespace Encloses

variable {ds : List Directive} {given : List Text} {calls around : List Call} {t : Task}

theorem isRead (h : Encloses ds given calls around t) (hd : ∀ d ∈ ds, d.IsRead) :
    t.directive.IsRead := by
  cases h
  case top hm    => exact hd _ hm
  case inside hm => exact Directive.isRead_of_mem_occurrences hm

-- The calls around a task are tasks of the same expansion.
theorem of_mem_around {c : Call} (h : Encloses ds given calls around t) (hc : c ∈ around) :
    ∃ around', Encloses ds given calls around' c.task := by
  induction h
  case top => cases hc
  case inside ha _ _ hi =>
    cases hc
    case head    => exact ⟨_, ha⟩
    case tail hc => exact hi hc

-- Each place that a task knows was given, or is that of a call around it.
theorem of_mem_ancestors {id : Text} (h : Encloses ds given calls around t)
    (hp : ∀ c ∈ calls, ∀ s, c.outcome = .ok s → s.included.sourceId = c.task.directive.sourceId)
    (hm : id ∈ t.ancestors) : id ∈ given ∨ ∃ c ∈ around, c.task.directive.sourceId = id := by
  induction h
  case top => exact .inl hm
  case inside c s d hc _ hs _ hi =>
    rcases List.mem_insert_iff.mp hm with rfl | hm
    · exact .inr ⟨c, List.mem_cons_self, (hp c hc s hs).symm⟩
    · exact (hi hm).imp_right fun ⟨c', hc', he⟩ => ⟨c', List.mem_cons_of_mem _ hc', he⟩

end Encloses

namespace Renderer

variable {r : Renderer} {p : Directive.Identity → Included → Prop} {n : Nat} {tasks : List Task}
  {cache : Cache} {x : Expansion (List Text)}

theorem Expands.madeWith (h : r.Expands n tasks cache x) (hp : r.Gives p) (hc : cache.All p) :
    ∀ c ∈ x.calls, r.MadeWith p c := by
  induction h
  case last | starved => exact madeWith_of_mem_resolveAll hp hc
  case deeper hr =>
    rw [List.forall_mem_append]
    exact ⟨madeWith_of_mem_resolveAll hp hc, hr (all_resolveAll hp hc)⟩

-- One level: what is inside the calls of some tasks is enclosed by them.
theorem encloses_of_mem_inner {ds : List Directive} {given : List Text} {calls : List Call}
    {u : Task} (hs : (r.resolveAll tasks cache).1 ⊆ calls)
    (ht : ∀ t ∈ tasks, ∃ around, Encloses ds given calls around t)
    (hu : u ∈ (r.resolveAll tasks cache).1.flatMap Call.inner) :
    ∃ around, Encloses ds given calls around u := by
  have ⟨c, hm, hu⟩ := List.mem_flatMap.mp hu
  have ⟨around, ha⟩ := ht _ (task_mem_of_mem_resolveAll hm)
  obtain ⟨s, ho, d, hd, rfl⟩ := Call.exists_of_mem_inner hu
  exact ⟨_, .inside (hs hm) ha ho hd⟩

theorem Expands.encloses {ds : List Directive} {given : List Text} {calls : List Call}
    (h : r.Expands n tasks cache x) (hs : x.calls ⊆ calls)
    (ht : ∀ t ∈ tasks, ∃ around, Encloses ds given calls around t) :
    ∀ c ∈ x.calls, ∃ around, Encloses ds given calls around c.task := by
  induction h
  case last | starved => exact fun c hm => ht _ (task_mem_of_mem_resolveAll hm)
  case deeper hr =>
    have ⟨hl, hb⟩ := List.append_subset.mp hs
    rw [List.forall_mem_append]
    exact ⟨fun c hm => ht _ (task_mem_of_mem_resolveAll hm),
      hr hb fun u hu => encloses_of_mem_inner hl ht hu⟩

end Renderer

-- What comes of resolving with any libraries and of dropping entries.
inductive Cache.Filled : Cache → Prop
  | empty (capacity : Nat) : Filled { capacity }
  | resolve {c} (h : Filled c) (lib : Library) (limit : DepthLimit) (ancestors : List Text)
    (d : Directive) : Filled (resolve lib limit ancestors d c).cache
  | invalidate {c} (h : Filled c) (id : Text) : Filled (c.invalidate id).2
  | invalidateRefs {c} (h : Filled c) (refs : List Text) : Filled (c.invalidateRefs refs).2
  | clear {c} (h : Filled c) : Filled c.clear

theorem Cache.Filled.placed {c : Cache} (h : c.Filled) : c.All Placed := by
  induction h
  case empty                  => exact .of_empty rfl
  case resolve hi             => exact hi.resolve fun _ _ => Library.sourceId_of_fetch
  case invalidate id hi       => exact hi.invalidate id
  case invalidateRefs refs hi => exact (hi.invalidateRefs refs).imp fun _ _ => And.left
  case clear                  => exact .clear

-- Every call is enclosed. It is circular only if a call around it points where it points itself, or
-- if that was among the places that were given.
def Expansion.CircularByTarget {α : Type} (ds : List Directive) (given : List Text)
    (x : Expansion α) : Prop :=
  ∀ c ∈ x.calls, ∃ around, Encloses ds given x.calls around c.task ∧
    (c.outcome = .error .circular →
      (∃ a ∈ around, a.task.directive.link.SameTarget c.task.directive.link) ∨
        ∃ id ∈ given, c.task.directive.link.IsPlace id)

section Circles

variable {r : Renderer} {n : Nat} {cache : Cache} {x : Expansion (List Text)} {ds : List Directive}
  {given : List Text}

theorem mem_of_circular {lib : Library} {limit : DepthLimit} {ancestors : List Text} {d : Directive}
    (h : (resolve lib limit ancestors d cache).outcome = .error .circular) :
    d.sourceId ∈ ancestors :=
  (refusal?_eq_circular_iff.mp ((resolve_eq_refusal_iff rfl).mp h)).right

theorem Renderer.Expands.circularByTarget {α : Type} {y : Expansion α}
    (h : r.Expands n (ds.map (⟨·, given⟩)) cache x) (hy : y.calls = x.calls)
    (hd : ∀ d ∈ ds, d.IsRead) (hc : cache.All Cache.Placed) : y.CircularByTarget ds given := by
  have hm := h.madeWith gives_placed hc
  have ht : ∀ t ∈ ds.map (Task.mk · given), ∃ around, Encloses ds given x.calls around t := by
    intro t ht
    obtain ⟨d, hd, rfl⟩ := List.mem_map.mp ht
    exact ⟨[], .top hd⟩
  have hp : ∀ c ∈ x.calls, ∀ s, c.outcome = .ok s →
      s.included.sourceId = c.task.directive.sourceId :=
    fun c hx s ho => ((hm c hx).of_ok gives_placed ho).right
  rw [Expansion.CircularByTarget, hy]
  intro c hx
  have ⟨around, ha⟩ := h.encloses (List.Subset.refl _) ht c hx
  refine ⟨around, ha, fun ho => ?_⟩
  have hr := (ha.isRead hd).link
  have hi := (refusal?_eq_circular_iff.mp (((hm c hx).refused_iff rfl).mp ho)).right
  rcases ha.of_mem_ancestors hp hi with hg | ⟨a, hm, he⟩
  · exact .inr ⟨_, hg, (ha.isRead hd).isPlace⟩
  · have ⟨_, hb⟩ := ha.of_mem_around hm
    exact .inl ⟨a, hm, ((hb.isRead hd).link.location_eq_iff hr).mp he⟩

end Circles

section Invalidating

-- Of the entries of links that were read, those of one target are dropped and no others.
theorem Cache.mem_invalidate_iff {c : Cache} {d : Directive} {k : Directive.Identity} {e : Included}
    (hc : c.All Placed) (hd : d.IsRead) (hm : (k, e) ∈ c.entries) (hk : k.link.IsRead) :
    (k, e) ∈ (c.invalidate d.sourceId).2.entries ↔ ¬k.link.SameTarget d.link := by
  rw [entries_invalidate, List.mem_filter, and_iff_right hm, bne_iff_ne, Ne, hc k e hm]
  exact not_congr (hk.location_eq_iff hd.link)

end Invalidating

-- Places tell the targets of links that were read apart, so that nothing is refused or dropped in
-- place of something else.
theorem targets_apart :
    (∀ raw raw' l l', Link.ofText raw = .ok l → Link.ofText raw' = .ok l' →
      (l.location = l'.location ↔ l.scheme = l'.scheme ∧ l.body = l'.body)) ∧
    (∀ lib limit ancestors (d : Directive) cache, d.IsRead →
      (resolve lib limit ancestors d cache).outcome = .error .circular →
        ∃ id ∈ ancestors, d.link.IsPlace id) ∧
    (∀ (r : Renderer) ancestors cache, cache.Filled →
      (∀ t, (r.render ancestors t cache).CircularByTarget t.occurrences ancestors) ∧
        ∀ d : Directive, d.IsRead →
          (r.expand ancestors d cache).CircularByTarget [d] ancestors) ∧
    ∀ (cache : Cache) (d : Directive) k e, cache.Filled → d.IsRead → (k, e) ∈ cache.entries →
      k.link.IsRead →
        ((k, e) ∈ (cache.invalidate d.sourceId).2.entries ↔
          ¬(k.link.scheme = d.link.scheme ∧ k.link.body = d.link.body)) := by
  refine ⟨fun raw raw' l l' h h' => ?_, fun lib limit ancestors d cache hd ho => ?_,
    fun r ancestors cache hc => ⟨fun t => ?_, fun d hd => ?_⟩, fun cache d k e hc hd hm hk => ?_⟩
  · exact Link.IsRead.location_eq_iff ⟨raw, h⟩ ⟨raw', h'⟩
  · exact ⟨_, mem_of_circular ho, hd.isPlace⟩
  · cases hd : t.directives
    case error =>
      have hr : (r.render ancestors t cache).calls = [] := by simp only [Renderer.render, hd]
      exact fun c hm => absurd (hr ▸ hm) List.not_mem_nil
    case ok ds =>
      have he := (Tree.directives_eq_ok_iff.mp hd).right
      have hx := Renderer.expands (r := r) (r.levelsLeft ancestors) (ds.map (⟨·, ancestors⟩)) cache
      subst he
      exact hx.circularByTarget (by simp only [Renderer.render, hd])
        (fun _ => Directive.isRead_of_mem_occurrences) hc.placed
  · have hx := Renderer.expands (r := r) (r.levelsLeft ancestors) ([d].map (⟨·, ancestors⟩)) cache
    exact hx.circularByTarget rfl (List.forall_mem_singleton.mpr hd) hc.placed
  · exact Cache.mem_invalidate_iff hc.placed hd hm hk

open Transclusion.Shelf (rooms) in
theorem targets_apart_rooms :
    let spaced : Link := { scheme := some "id:".toList, body := ":x".toList }
    let path : Link := { body := "id".toList, extra := some "x".toList }
    let attic : Directive := { link := { body := "attic.org".toList } }
    let x := rooms.renderer.render [] rooms.hall rooms.cache
    (Link.ofText "id: :x".toList = .ok spaced ∧ Link.ofText "id::x".toList = .ok path ∧
      spaced.location ≠ path.location) ∧
    (∃ id ∈ ["attic.org".toList], attic.link.IsPlace id) ∧
    (x.CircularByTarget rooms.hall.occurrences [] ∧ ∃ c ∈ x.calls, c.outcome = .error .circular) ∧
    ∀ entry ∈ rooms.cache.entries, entry ∈ (rooms.cache.invalidate attic.sourceId).2.entries := by
  intro spaced path attic x
  have ⟨hl, hr, hx, hi⟩ := targets_apart
  have hs : Link.ofText "id: :x".toList = .ok spaced := by decide +kernel
  have hp : Link.ofText "id::x".toList = .ok path := by decide +kernel
  have hc : rooms.cache.Filled := .resolve (.empty 1) _ _ _ _
  have ha : attic.IsRead :=
    ⟨{ key := Directive.mark, value := some "[[attic.org]]".toList }, by decide +kernel⟩
  refine ⟨⟨hs, hp, mt (hl _ _ _ _ hs hp).mp (by decide)⟩, ?_, ⟨?_, by decide +kernel⟩, ?_⟩
  · exact hr rooms.library (.ofInt 16) _ attic rooms.cache ha (by decide +kernel)
  · exact (hx rooms.renderer [] rooms.cache hc).left rooms.hall
  · intro entry hm
    have hk : ∀ e ∈ rooms.cache.entries, e.1.link = { body := "hall.org".toList } := by
      decide +kernel
    have hh : entry.1.link.IsRead := hk entry hm ▸ ⟨"hall.org".toList, by decide +kernel⟩
    exact (hi _ attic _ _ hc ha hm hh).mpr (hk entry hm ▸ by decide)

end Transclusion
