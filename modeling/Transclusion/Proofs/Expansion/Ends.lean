import Transclusion.Proofs.Expansion.Levels

namespace Transclusion

namespace Task

variable {t : Task} {o : Outcome} {ts : List Task}

theorem innerOf_eq_error {i : Interruption} (h : t.innerOf o = .error i) : ∃ l, i = .overlong l := by
  cases o
  case error => cases h
  case ok s =>
    cases hd : s.included.content.directives
    case error l =>
      simp only [innerOf, inner, hd, mapError_error, Except.map, Except.error.injEq] at h
      exact ⟨l, h.symm⟩
    case ok => simp [innerOf, inner, hd, Except.map] at h

theorem innerOf_ok {s : Success} (h : t.innerOf (.ok s) = .ok ts) :
    Legible s.included.content.keywords ∧
      ts = s.included.content.occurrences.map (⟨·, t.ancestors.insert s.included.sourceId⟩) := by
  cases hd : s.included.content.directives
  case error => simp [innerOf, inner, hd, Except.map] at h
  case ok ds =>
    obtain ⟨hl, rfl⟩ := Tree.directives_eq_ok_iff.mp hd
    simp only [innerOf, inner, hd, mapError_ok, Except.map, Except.ok.injEq] at h
    exact ⟨hl, h.symm⟩

end Task

-- A call starts tasks for directives of what it included.
theorem Call.exists_of_mem_inner {c : Call} {u : Task} (h : u ∈ c.inner) :
    ∃ s, c.outcome = .ok s ∧ ∃ d ∈ s.included.content.occurrences,
      u = ⟨d, c.task.ancestors.insert s.included.sourceId⟩ := by
  have hi := innerOf_of_mem_inner h
  cases ho : c.outcome <;> rw [ho] at hi
  case error =>
    rw [←Except.ok.inj hi] at h
    cases h
  case ok s =>
    obtain ⟨_, he⟩ := Task.innerOf_ok hi
    obtain ⟨d, hd, rfl⟩ := List.mem_map.mp (he ▸ h)
    exact ⟨s, rfl, d, hd, rfl⟩

-- An entry points where its key points.
def Cache.Placed (k : Directive.Identity) (e : Included) : Prop :=
  e.sourceId = k.link.location

namespace Renderer

open Cache (Placed)

variable {r : Renderer} {calls : List Call} {inner : List (List Task)}

-- A call takes as many texts as there are tasks inside it.
theorem assemble_of_innerOf {c : Call} {ts : List Task} {us : List Text}
    (h : c.task.innerOf c.outcome = .ok ts) (hu : us.length = ts.length) (rest : List Text) :
    ∃ t, r.assemble c (us ++ rest) = .ok (t, rest) := by
  cases ho : c.outcome
  case error f =>
    rw [ho] at h
    cases h
    cases List.length_eq_zero_iff.mp hu
    exact ⟨failureText f, by simp [assemble, ho]⟩
  case ok s =>
    rw [ho] at h
    obtain ⟨hl, rfl⟩ := Task.innerOf_ok h
    rw [List.length_map] at hu
    have hw := Tree.weave_eq_fill hl hu r.style rest
    simp only [assemble, ho, hw, bind, Except.bind]
    exact ⟨_, rfl⟩

theorem assembleAll_of_innerOf {us : List Text}
    (h : List.Forall₂ (fun c ts => Task.innerOf c.task c.outcome = .ok ts) calls inner)
    (hu : us.length = inner.flatten.length) :
    ∃ ts, r.assembleAll calls us = .ok ts ∧ ts.length = calls.length := by
  induction h generalizing us
  case nil => exact ⟨[], rfl, rfl⟩
  case cons c ts cs tss hc _ hi =>
    rw [List.flatten_cons, List.length_append] at hu
    have hl : (us.take ts.length).length = ts.length := by
      rw [List.length_take]
      omega
    have hd : (us.drop ts.length).length = tss.flatten.length := by
      rw [List.length_drop]
      omega
    have ⟨t, ht⟩ := assemble_of_innerOf (r := r) hc hl (us.drop ts.length)
    have ⟨more, hm, hn⟩ := hi hd
    rw [List.take_append_drop] at ht
    exact ⟨t :: more, by simp only [assembleAll, ht, hm, bind, Except.bind], by simp [hn]⟩

variable {n : Nat} {tasks : List Task} {cache : Cache} {x : Expansion (List Text)}

theorem gives_placed : r.Gives Placed :=
  fun _ _ _ => Library.sourceId_of_fetch

theorem MadeWith.levelsLeft_lt {c : Call} {u : Task} (h : r.MadeWith Placed c) (hu : u ∈ c.inner) :
    r.levelsLeft u.ancestors < r.levelsLeft c.task.ancestors := by
  have ⟨s, ho, d, _, he⟩ := Call.exists_of_mem_inner hu
  have ⟨hr, hp⟩ := h.of_ok gives_placed ho
  rw [he, hp]
  exact levelsLeft_insert_lt hr

theorem exists_task_of_mem_inner {u : Task} (hc : cache.All Placed)
    (hu : u ∈ (r.resolveAll tasks cache).1.flatMap Call.inner) :
    ∃ t ∈ tasks, r.levelsLeft u.ancestors < r.levelsLeft t.ancestors := by
  have ⟨c, hm, hu⟩ := List.mem_flatMap.mp hu
  have hw := madeWith_of_mem_resolveAll gives_placed hc c hm
  exact ⟨c.task, task_mem_of_mem_resolveAll hm, hw.levelsLeft_lt hu⟩

theorem levelsLeft_lt_of_mem_inner {u : Task} (hc : cache.All Placed)
    (hn : ∀ t ∈ tasks, r.levelsLeft t.ancestors ≤ n)
    (hu : u ∈ (r.resolveAll tasks cache).1.flatMap Call.inner) : r.levelsLeft u.ancestors < n := by
  have ⟨t, ht, hlt⟩ := exists_task_of_mem_inner hc hu
  exact Nat.lt_of_lt_of_le hlt (hn t ht)

-- If nothing but an overlong level can keep the inner tasks from having their texts, nothing else keeps
-- the calls from having theirs.
theorem gather_ends {texts : Except Interruption (List Text)}
    (h : (∃ o, texts = .error (.overlong o)) ∨
      ∃ us, texts = .ok us ∧ us.length = (calls.flatMap Call.inner).length) :
    (∃ o, r.gather calls texts = .error (.overlong o)) ∨
      ∃ us, r.gather calls texts = .ok us ∧ us.length = calls.length := by
  cases hi : calls.mapM fun c => c.task.innerOf c.outcome
  case error =>
    obtain ⟨_, _, he⟩ := mapM_eq_error hi
    obtain ⟨o, rfl⟩ := Task.innerOf_eq_error he
    exact .inl ⟨o, by simp only [gather, hi, bind, Except.bind]⟩
  case ok inner =>
    rcases h with ⟨o, rfl⟩ | ⟨us, rfl, hl⟩
    · exact .inl ⟨o, by simp only [gather, hi, bind, Except.bind]⟩
    · rw [flatMap_inner hi] at hl
      obtain ⟨ts, ht, hl⟩ := assembleAll_of_innerOf (r := r) (mapM_eq_ok_iff.mp hi) hl
      exact .inr ⟨ts, (gather_of_ok hi).trans ht, hl⟩

theorem Expands.result (h : r.Expands n tasks cache x) (hc : cache.All Placed)
    (hn : ∀ t ∈ tasks, r.levelsLeft t.ancestors ≤ n) :
    (∃ o, x.result = .error (.overlong o)) ∨
      ∃ us, x.result = .ok us ∧ us.length = tasks.length := by
  have hl : (r.resolveAll tasks cache).1.length = tasks.length := length_resolveAll
  rw [←hl]
  clear hl
  induction h
  case last hf => exact gather_ends (.inr ⟨[], rfl, by simp [hf]⟩)
  case starved hf =>
    -- A task inside another has fewer levels left than none.
    have ⟨u, hu⟩ := List.exists_mem_of_ne_nil _ hf
    exact absurd (levelsLeft_lt_of_mem_inner hc hn hu) (Nat.not_lt_zero _)
  case deeper hr =>
    rw [length_resolveAll] at hr
    exact gather_ends <| hr (all_resolveAll gives_placed hc) fun u hu =>
      Nat.le_of_lt_succ (levelsLeft_lt_of_mem_inner hc hn hu)

section Requests

variable {ancestors : List Text} {t : Tree} {d : Directive} {i : Interruption}

-- Only an overlong level keeps a rendering from giving its text.
theorem render_ends (hc : cache.All Placed) (h : (r.render ancestors t cache).result = .error i) :
    ∃ o, i = .overlong o := by
  cases hd : t.directives
  case error =>
    simp only [render, hd, Except.error.injEq] at h
    exact ⟨_, h.symm⟩
  case ok ds =>
    obtain ⟨hl, he⟩ := Tree.directives_eq_ok_iff.mp hd
    have hx := (expands (r := r) (r.levelsLeft ancestors) (ds.map (⟨·, ancestors⟩)) cache).result hc
      (by simp)
    simp only [render, hd] at h
    rcases hx with ⟨o, ho⟩ | ⟨us, hu, hn⟩
    · simp only [ho, Except.bind, Except.error.injEq] at h
      exact ⟨o, h.symm⟩
    · rw [List.length_map, he] at hn
      have hw := Tree.weave_eq_fill hl hn r.style []
      rw [List.append_nil] at hw
      simp [hu, Except.bind, hw, Except.map] at h

theorem expand_ends (hc : cache.All Placed) (h : (r.expand ancestors d cache).result = .error i) :
    ∃ o, i = .overlong o := by
  have hx := (expands (r := r) (r.levelsLeft ancestors) [⟨d, ancestors⟩] cache).result hc (by simp)
  rcases hx with ⟨o, ho⟩ | ⟨us, hu, _⟩
  · simp only [expand, ho, Except.map, Except.error.injEq] at h
    exact ⟨o, h.symm⟩
  · simp [expand, hu, Except.map] at h

end Requests

end Renderer

end Transclusion
