import Mathlib.Logic.Hydra
import Transclusion.Proofs.Expansion.Frames
import Transclusion.Proofs.Expansion.Interleaving

namespace Transclusion.Renderer

variable {r : Renderer} {inner : Call → List Task} {cache : Cache} {history : List Moment}
  {tasks : List Task} {l l' : Loop}

open Relation (ReflTransGen)

section Sequential

-- A task that is served at once and alone.
theorem exists_moves_resolve (inner : Call → List Task) (t : Task) (ready : List Task) (cache : Cache)
    (history : List Moment) :
    let x := resolve r.library r.limit t.ancestors t.directive cache
    let c : Call := ⟨t, x.outcome, x.accesses⟩
    ∃ more, Moment.calls more = [c] ∧
      ReflTransGen (r.Moves inner) ⟨t :: ready, [], cache, history⟩
        ⟨ready ++ inner c, [], x.cache, history ++ more⟩ := by
  intro x c
  by_cases h : refusal? r.limit t.ancestors t.directive = none ∧ cache.find? t.directive.identity = none
  case pos =>
    have hx : resolve r.library r.limit t.ancestors t.directive cache = _ :=
      resolve_of_find?_eq_none h.left h.right
    have hw : r.Moves inner ⟨[] ++ t :: ready, [], cache, history⟩ _ := .waits h.left h.right
    let given := r.library.fetch t.directive
    let asked := history ++ [.starts t given.2]
    have hs : r.Moves inner ⟨ready, [] ++ ⟨t, given⟩ :: [], cache, asked⟩ _ := .stores hx.symm
    refine ⟨[.starts t (r.library.fetch t.directive).2, .ends c], rfl, ReflTransGen.tail (.single hw) ?_⟩
    rwa [List.append_assoc] at hs
  case neg =>
    have ha : r.Moves inner ⟨[] ++ t :: ready, [], cache, history⟩ _ := .answers rfl (by tauto)
    exact ⟨[.starts t x.accesses, .ends c], rfl, .single ha⟩

theorem exists_moves_resolveAll (inner : Call → List Task) (ts ready : List Task) (cache : Cache)
    (history : List Moment) :
    ∃ more, Moment.calls more = (r.resolveAll ts cache).1 ∧
      ReflTransGen (r.Moves inner) ⟨ts ++ ready, [], cache, history⟩
        ⟨ready ++ (r.resolveAll ts cache).1.flatMap inner, [], (r.resolveAll ts cache).2,
          history ++ more⟩ := by
  induction ts generalizing ready cache history
  case nil => exact ⟨[], rfl, by simpa [resolveAll] using .refl⟩
  case cons t ts hi =>
    let x := resolve r.library r.limit t.ancestors t.directive cache
    obtain ⟨one, ho, hm⟩ := exists_moves_resolve (r := r) inner t (ts ++ ready) cache history
    obtain ⟨more, hc, hs⟩ := hi (ready ++ inner ⟨t, x.outcome, x.accesses⟩) x.cache (history ++ one)
    refine ⟨one ++ more, by rw [Moment.calls_append, ho, hc]; rfl, hm.trans ?_⟩
    simpa only [resolveAll, List.append_assoc, List.flatMap_cons] using hs

-- What an expansion does level by level is one of the ways in which its tasks can take turns.
theorem Expands.exists_moves {n : Nat} {x : Expansion (List Text)} (h : r.Expands n tasks cache x)
    (hc : cache.All Cache.Placed) (hn : ∀ t ∈ tasks, r.levelsLeft t.ancestors ≤ n)
    (history : List Moment) :
    ∃ more, Moment.calls more = x.calls ∧
      ReflTransGen (r.Moves Call.inner) ⟨tasks, [], cache, history⟩
        ⟨[], [], x.cache, history ++ more⟩ := by
  induction h generalizing history
  case last tasks cache hf =>
    have hm := exists_moves_resolveAll (r := r) Call.inner tasks [] cache history
    simpa only [List.append_nil, List.nil_append, hf] using hm
  case starved hf =>
    have ⟨u, hu⟩ := List.exists_mem_of_ne_nil _ hf
    exact absurd (levelsLeft_lt_of_mem_inner hc hn hu) (Nat.not_lt_zero _)
  case deeper tasks cache below _ _ hr =>
    have ⟨first, hf, hm⟩ := exists_moves_resolveAll (r := r) Call.inner tasks [] cache history
    have ⟨more, hb, hs⟩ := hr (all_resolveAll gives_placed hc)
      (fun _ hu => Nat.le_of_lt_succ (levelsLeft_lt_of_mem_inner hc hn hu)) (history ++ first)
    rw [List.append_nil, List.nil_append] at hm
    exact ⟨first ++ more, by simp [hf, hb], hm.trans (by rwa [List.append_assoc] at hs)⟩

end Sequential

section Ending

variable {ready front back us : List Task} {waiting first last : List Pending} {t : Task} {p : Pending}

-- A task weighs less when it waits, and those inside it weigh less than that.
def weight (r : Renderer) (ready : List Task) (waiting : List Pending) : Multiset Nat :=
  ↑(ready.map (fun t => 2 * r.levelsLeft t.ancestors + 1) ++
    waiting.map fun p => 2 * r.levelsLeft p.task.ancestors)

theorem weight_ready :
    r.weight (front ++ t :: back) waiting =
      (2 * r.levelsLeft t.ancestors + 1) ::ₘ r.weight (front ++ back) waiting :=
  Multiset.coe_eq_coe.mpr (by simp [List.perm_middle])

theorem weight_waiting :
    r.weight ready (first ++ p :: last) =
      (2 * r.levelsLeft p.task.ancestors) ::ₘ r.weight ready (first ++ last) := by
  refine Multiset.coe_eq_coe.mpr ?_
  rw [List.map_append, List.map_cons, ←List.append_assoc, List.map_append, ←List.append_assoc]
  exact List.perm_middle

theorem weight_append :
    r.weight (ready ++ us) waiting =
      ↑(us.map fun t => 2 * r.levelsLeft t.ancestors + 1) + r.weight ready waiting := by
  refine Multiset.coe_eq_coe.mpr ?_
  rw [List.map_append, ←List.append_assoc]
  exact List.perm_append_comm.append_right _

theorem cutExpand_cons {less rest : Multiset Nat} {n : Nat} (h : ∀ k ∈ less, k < n) :
    Relation.CutExpand (· < ·) (less + rest) (n ::ₘ rest) :=
  ⟨less, n, h, by rw [←Multiset.singleton_add, add_assoc, add_comm less, add_comm rest]⟩

-- One weight makes place for others that are less.
theorem Moves.cutExpand (h : r.Moves Call.inner l l')
    (hm : ∀ c ∈ l'.calls, r.MadeWith Cache.Placed c) :
    Relation.CutExpand (· < ·) (r.weight l'.ready l'.waiting) (r.weight l.ready l.waiting) := by
  have hi (c : Call) (hc : c ∈ l'.calls) :
      ∀ n ∈ (↑(c.inner.map fun t => 2 * r.levelsLeft t.ancestors + 1) : Multiset Nat),
        n < 2 * r.levelsLeft c.task.ancestors := by
    intro n hn
    obtain ⟨u, hu, rfl⟩ := List.mem_map.mp (Multiset.mem_coe.mp hn)
    have hl := (hm c hc).levelsLeft_lt hu
    omega
  cases h
  case answers front t back waiting cache history x _ _ =>
    rw [weight_ready, weight_append]
    have hn := hi ⟨t, x.outcome, x.accesses⟩ (by simp [Loop.calls])
    exact cutExpand_cons fun n h => Nat.lt_succ_of_lt (hn n h)
  case waits front t back waiting cache history _ _ =>
    rw [weight_ready, ←List.nil_append (Pending.mk .. :: waiting), weight_waiting,
      ←Multiset.singleton_add]
    exact cutExpand_cons fun n h => Multiset.mem_singleton.mp h ▸ Nat.lt_succ_self _
  case stores ready front p back cache history x _ =>
    rw [weight_waiting, weight_append]
    exact cutExpand_cons (hi ⟨p.task, x.outcome, x.accesses⟩ (by simp [Loop.calls]))

-- The tasks cannot take turns forever.
theorem acc_start (hc : cache.All Cache.Placed) :
    Acc (fun l' l => r.Moves Call.inner l l') (.start tasks cache) := by
  have hwf : WellFounded (Relation.CutExpand (· < · : Nat → Nat → Prop)) :=
    (wellFounded_lt (α := Nat)).cutExpand
  suffices h : ∀ w l, r.weight l.ready l.waiting = w →
      ReflTransGen (r.Moves Call.inner) (.start tasks cache) l →
        Acc (fun l' l => r.Moves Call.inner l l') l from h _ _ rfl .refl
  intro w
  induction w using hwf.induction
  case h w hi =>
    rintro l rfl hl
    refine .intro _ fun l' hm => hi _ (hm.cutExpand ?_) l' rfl (hl.tail hm)
    exact (serial (hl.tail hm)).left.madeWith gives_placed hc

-- While there is a task left, one of them can go on.
theorem exists_moves (h : l.ready ≠ [] ∨ l.waiting ≠ []) : ∃ l', r.Moves inner l l' := by
  obtain ⟨ready, waiting, cache, history⟩ := l
  cases ready with
  | cons t ts =>
    by_cases ha : refusal? r.limit t.ancestors t.directive = none ∧
        cache.find? t.directive.identity = none
    case pos =>
      have hw : r.Moves inner ⟨[] ++ t :: ts, waiting, cache, history⟩ _ := .waits ha.left ha.right
      exact ⟨_, hw⟩
    case neg =>
      have hs : r.Moves inner ⟨[] ++ t :: ts, waiting, cache, history⟩ _ :=
        .answers rfl (by tauto)
      exact ⟨_, hs⟩
  | nil =>
    cases waiting with
    | nil => simp at h
    | cons p ps =>
      have hs : r.Moves inner ⟨[], [] ++ p :: ps, cache, history⟩ _ := .stores rfl
      exact ⟨_, hs⟩

end Ending

section Framing

variable {places ancestors : List Text} {slots ws rs : List Slot} {frames : List Frame}

-- Each task that is left has its slot, and each call that ended its frame. They are those that were
-- asked for and those inside the calls that ended.
structure Framed (r : Renderer) (places ancestors : List Text) (slots : List Slot) (l : Loop)
    (frames : List Frame) (ws rs : List Slot) : Prop where
  calls : frames.map Frame.call = l.calls
  waiting : ws.map (Slot.task ancestors) = l.waiting.map (·.task)
  ready : rs.map (Slot.task ancestors) = l.ready
  all : (frames.map Frame.slot ++ (ws ++ rs)).Perm (slots ++ frames.flatMap Frame.inner)
  answers : ∀ f ∈ frames, r.Answers places ancestors f
  exact : ∀ s ∈ ws ++ rs, r.Exact places ancestors s

theorem Framed.start (hs : ∀ s ∈ slots, r.Exact places ancestors s) (cache : Cache) :
    r.Framed places ancestors slots (.start (slots.map (Slot.task ancestors)) cache) [] [] slots where
  calls := rfl
  waiting := rfl
  ready := rfl
  all := by simp
  answers := List.forall_mem_nil _
  exact := hs

-- The call of one of the slots that are left has ended.
theorem exists_frame {s : Slot} {c : Call} {front back : List Slot}
    (hf : ∀ f ∈ frames, r.Answers places ancestors f)
    (hs : ∀ u ∈ front ++ s :: back, r.Exact places ancestors u)
    (ha : (frames.map Frame.slot ++ (front ++ s :: back)).Perm
      (slots ++ frames.flatMap Frame.inner))
    (ht : c.task = s.task ancestors) (hm : r.MadeWith (Cache.Within places) c)
    (hg : r.Gives (Cache.Within places)) :
    ∃ f : Frame, f.call = c ∧ f.inner.map (Slot.task ancestors) = c.inner ∧
      ((frames ++ [f]).map Frame.slot ++ (front ++ back ++ f.inner)).Perm
        (slots ++ (frames ++ [f]).flatMap Frame.inner) ∧
      (∀ g ∈ frames ++ [f], r.Answers places ancestors g) ∧
      ∀ u ∈ front ++ back ++ f.inner, r.Exact places ancestors u := by
  have he : Frame.slot ⟨c, s.around⟩ = s := congrArg (Slot.mk · s.around) (congrArg Task.directive ht)
  have hn : r.Answers places ancestors ⟨c, s.around⟩ :=
    { exact := he.symm ▸ hs s (List.mem_append_right _ List.mem_cons_self)
      task := he.symm ▸ ht
      made := hm }
  refine ⟨⟨c, s.around⟩, rfl, (hn.inner_eq hg).symm, ?_, ?_, ?_⟩
  · have hp : (frames.map Frame.slot ++ [s] ++ (front ++ back)).Perm
        (frames.map Frame.slot ++ (front ++ s :: back)) := by
      rw [List.append_assoc]
      have hm : (s :: (front ++ back)).Perm (front ++ s :: back) := List.perm_middle.symm
      exact hm.append_left _
    have hi := (hp.trans ha).append_right (Frame.inner ⟨c, s.around⟩)
    simpa [he] using hi
  · exact List.forall_mem_append.mpr ⟨hf, List.forall_mem_singleton.mpr hn⟩
  · refine List.forall_mem_append.mpr ⟨fun u hu => hs u ?_, hn.inner hg⟩
    exact (List.sublist_cons_self s back).append_left front |>.subset hu

theorem Framed.moves (h : r.Framed places ancestors slots l frames ws rs)
    (hm : r.Moves Call.inner l l') (hw : ∀ c ∈ l'.calls, r.MadeWith (Cache.Within places) c)
    (hg : r.Gives (Cache.Within places)) :
    ∃ frames ws rs, r.Framed places ancestors slots l' frames ws rs := by
  obtain ⟨hc, hwait, hready, hall, hans, hex⟩ := h
  cases hm
  case answers front t back waiting cache history x _ _ =>
    obtain ⟨rf, _, rfl, hfront, hrest⟩ := List.map_eq_append_iff.mp hready
    obtain ⟨s, rb, rfl, ht, hback⟩ := List.map_eq_cons_iff.mp hrest
    rw [←List.append_assoc ws] at hall hex
    obtain ⟨f, hfc, hfi, hfp, hfa, hfe⟩ := exists_frame (c := ⟨t, x.outcome, x.accesses⟩) hans hex hall
      ht.symm (hw _ (by simp [Loop.calls])) hg
    exact ⟨frames ++ [f], ws, rf ++ rb ++ f.inner,
      { calls := by simp [hc, hfc, Loop.calls]
        waiting := hwait
        ready := by simp [hfront, hback, hfi]
        all := by simpa using hfp
        answers := hfa
        exact := by simpa using hfe }⟩
  case waits front t back waiting cache history _ _ =>
    obtain ⟨rf, _, rfl, hfront, hrest⟩ := List.map_eq_append_iff.mp hready
    obtain ⟨s, rb, rfl, ht, hback⟩ := List.map_eq_cons_iff.mp hrest
    have hp : (s :: ws ++ (rf ++ rb)).Perm (ws ++ (rf ++ s :: rb)) := by
      have hm : (s :: (ws ++ rf ++ rb)).Perm (ws ++ rf ++ s :: rb) := List.perm_middle.symm
      simpa using hm
    exact ⟨frames, s :: ws, rf ++ rb,
      { calls := by simp [hc, Loop.calls]
        waiting := by simp [ht, hwait]
        ready := by simp [hfront, hback]
        all := (hp.append_left _).trans hall
        answers := hans
        exact := fun u hu => hex u (hp.subset hu) }⟩
  case stores front p back cache history x _ =>
    rw [List.map_append, List.map_cons] at hwait
    obtain ⟨wf, _, rfl, hfront, hrest⟩ := List.map_eq_append_iff.mp hwait
    obtain ⟨s, wb, rfl, ht, hback⟩ := List.map_eq_cons_iff.mp hrest
    rw [List.append_assoc wf, List.cons_append] at hall hex
    obtain ⟨f, hfc, hfi, hfp, hfa, hfe⟩ := exists_frame (c := ⟨p.task, x.outcome, x.accesses⟩) hans hex hall
      ht.symm (hw _ (by simp [Loop.calls])) hg
    exact ⟨frames ++ [f], wf ++ wb, rs ++ f.inner,
      { calls := by simp [hc, hfc, Loop.calls]
        waiting := by simp [hfront, hback]
        ready := by simp [hready, hfi]
        all := by simpa using hfp
        answers := hfa
        exact := by simpa using hfe }⟩

-- However the tasks take turns, the calls around each of them are as in an expansion.
theorem exists_framed (hg : r.Gives (Cache.Within places)) (hc : cache.All (Cache.Within places))
    (hs : ∀ s ∈ slots, r.Exact places ancestors s)
    (h : ReflTransGen (r.Moves Call.inner) (.start (slots.map (Slot.task ancestors)) cache) l) :
    ∃ frames ws rs, r.Framed places ancestors slots l frames ws rs := by
  induction h
  case refl => exact ⟨[], [], slots, .start hs cache⟩
  case tail hl hm hi =>
    have ⟨_, _, _, hf⟩ := hi
    exact hf.moves hm ((serial (hl.tail hm)).left.madeWith hg hc) hg

end Framing

end Transclusion.Renderer
