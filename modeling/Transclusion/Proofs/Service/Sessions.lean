import Transclusion.Service
import Transclusion.Proofs.Files.Locations
import Transclusion.Proofs.Shelf.Changes

namespace Transclusion

namespace Session

open Service

variable (s : Session) (w : Workspace) (path : Text) (q : Question)

-- Only the cache of a session changes, and a document that is there is never outside or missing.
theorem answer_spec :
    (∃ cache, (s.answer w path q).2 = { s with cache }) ∧
      ∀ e, (s.answer w path q).1 = .error e → e = .failed ∨ ∃ i, e = .noDirective i := by
  cases q
  case directives =>
    rw [answer]
    split
    case h_1 => exact ⟨⟨s.cache, rfl⟩, nofun⟩
    case h_2 => exact ⟨⟨s.cache, rfl⟩, fun _ h => .inl (Except.error.inj h).symm⟩
  case outcomes index =>
    rw [answer, outcomes]
    split
    case h_1 => exact ⟨⟨s.cache, rfl⟩, fun _ h => .inl (Except.error.inj h).symm⟩
    case h_2 =>
      cases index
      case none => exact ⟨⟨_, rfl⟩, nofun⟩
      case some i =>
        dsimp only
        split
        case h_1 => exact ⟨⟨_, rfl⟩, nofun⟩
        case h_2 => exact ⟨⟨_, rfl⟩, fun _ h => .inr ⟨i, (Except.error.inj h).symm⟩⟩
  case text headers =>
    have hr : ∃ cache, (s.render w { headers }).2 = { s with cache } := by
      rw [render, onDocument]
      split <;> exact ⟨_, rfl⟩
    rw [answer]
    split
    case h_1 hs => exact ⟨by simpa only [hs] using hr, nofun⟩
    case h_2 hs => exact ⟨by simpa only [hs] using hr, fun _ h => .inl (Except.error.inj h).symm⟩
  case invalidation id => cases id <;> exact ⟨⟨_, rfl⟩, nofun⟩

variable {s w} in
theorem main_of_start {settings : Settings} {l : Location} (h : start w settings l.path = .ok s)
    (hl : "..".toList ∉ l.parts) : s.main = l := by
  cases hm : w.resolve l.path
  case error => simp [start, hm, bind, Except.bind] at h
  case ok main =>
    cases hr : w.resolve settings.root
    case error => simp [start, hm, hr, bind, Except.bind] at h
    case ok root =>
      simp only [start, hm, hr, bind, Except.bind, Except.ok.injEq] at h
      have he : w.resolve l.path = w.locate l.path := rfl
      rw [he, Workspace.locate] at hm
      split at hm <;> cases hm
      rw [←h, Location.walk_path hl]

end Session

namespace Service

variable {ρ : Type}

-- Where a path leads. What is absolute leads away from the root, and so may double dots.
def place (x : Service) (path : Text) : Location :=
  ({} : Location).walk (x.root.path.join (.ofText path))

-- A path with this character leads nowhere.
def HasNul (x : Service) (path : Text) : Prop :=
  (x.root.path.join (.ofText path)).parts.any (·.contains (Char.ofNat 0))

instance (x : Service) (path : Text) : Decidable (x.HasNul path) :=
  inferInstanceAs (Decidable (_ = true))

-- The place that an admitted request on a document leads to.
def target? (x : Service) (f : Framework ρ) (r : ρ) : Option Location :=
  match x.query f r with
  | .ok (.document path _) => if x.HasNul path then none else some (x.place path)
  | _ => none

-- All that can come of a request that leads to `l`.
inductive Handles (x : Service) (w : Workspace) (l : Location) : Except Refusal Answer × Service → Prop
  | outside {path} (hu : ¬x.root.parts <+: l.parts) : Handles x w l (.error (.outside path), x)
  | missing {path} (hu : x.root.parts <+: l.parts) (hf : w.isFile l.path = .ok false) :
    Handles x w l (.error (.missing path), x)
  | failed (hu : x.root.parts <+: l.parts) : Handles x w l (.error .failed, x)
  | served {path q s} (hu : x.root.parts <+: l.parts) (hf : w.isFile l.path = .ok true)
    (hs : x.session w l = .ok s) :
    Handles x w l ((s.answer w path q).1, x.keep l (s.answer w path q).2)

-- The service after requests, each of which comes with the files as they are by then.
def after (x : Service) (f : Framework ρ) (steps : List (Workspace × ρ)) : Service :=
  steps.foldl (fun x s => (x.handle s.1 f s.2).2) x

-- The second service is set up like the first.
def Alike (x y : Service) : Prop :=
  y = { x with sessions := y.sessions }

-- What holds of a service that started without sessions. Some of the steps have been taken.
structure Orderly (x : Service) (f : Framework ρ) (steps : List (Workspace × ρ)) (now : Service) : Prop where
  alike : x.Alike now
  nodup : (now.sessions.map (·.1)).Nodup
  opened : ∀ l s, (l, s) ∈ now.sessions →
    x.root.parts <+: l.parts ∧ s.main = l ∧
      ∃ w r, (w, r) ∈ steps ∧ x.target? f r = some l ∧ w.isFile l.path = .ok true

variable {f : Framework ρ} {x now : Service} {w : Workspace} {r : ρ} {l k : Location} {path : Text} {s : Session}
  {steps : List (Workspace × ρ)}

section Handling

theorem locate_of_nul (h : x.HasNul path) : x.locate w path = .error .failed := by
  have hl : w.locate (x.root.path.join (.ofText path)) = .error .nulInPath := if_pos h
  simp [locate, hl, bind, Except.bind]

theorem locate_of_not_nul (h : ¬x.HasNul path) :
    x.locate w path =
      if x.root.parts <+: (x.place path).parts then
        match w.isFile (x.place path).path with
        | .ok true => .ok (x.place path)
        | .ok false => .error (.missing path)
        | .error _ => .error .failed
      else .error (.outside path) := by
  have hr := Path.isRelative_join (p := x.root.path) rfl (.ofText path)
  have hl : w.locate (x.root.path.join (.ofText path)) = .ok (x.place path) :=
    (if_neg h).trans (congrArg _ (Location.walk_of_anchored hr w.cwd {}))
  by_cases hu : x.root.parts <+: (x.place path).parts
  case pos =>
    have hu' := Location.isUnder_iff_prefix.mpr hu
    rw [if_pos hu]
    rcases hf : w.isFile (x.place path).path with _ | _ | _ <;>
      simp [locate, hl, hu', hf, bind, Except.bind]
  case neg =>
    have hu' := Bool.eq_false_iff.mpr (mt Location.isUnder_iff_prefix.mp hu)
    rw [if_neg hu]
    simp [locate, hl, hu', bind, Except.bind, throw, throwThe, MonadExceptOf.throw]

theorem place_of_locate (hn : ¬x.HasNul path) (h : x.locate w path = .ok l) : x.place path = l := by
  rw [locate_of_not_nul hn] at h
  split at h
  case isTrue =>
    split at h <;> cases h
    rfl
  case isFalse => cases h

theorem query_of_target? (h : x.target? f r = some l) :
    ∃ path q, x.query f r = .ok (.document path q) ∧ ¬x.HasNul path ∧ x.place path = l := by
  rw [target?] at h
  split at h
  case h_1 path q hq =>
    split at h <;> cases h
    case isFalse hn => exact ⟨path, q, hq, hn, rfl⟩
  case h_2 => cases h

theorem session_error {e : Refusal} (h : x.session w l = .error e) : e = .failed := by
  rw [session] at h
  split at h
  case h_1 => cases h
  case h_2 =>
    cases hs : Session.start w x.settings l.path <;> rw [hs] at h <;> cases h
    rfl

theorem dots_not_mem_of_target? (h : x.target? f r = some l) : "..".toList ∉ l.parts := by
  obtain ⟨_, _, _, _, rfl⟩ := query_of_target? h
  exact Location.not_mem_walk _

theorem handles (h : x.target? f r = some l) (w : Workspace) : x.Handles w l (x.handle w f r) := by
  obtain ⟨path, q, hq, hn, rfl⟩ := query_of_target? h
  have hl := locate_of_not_nul (w := w) hn
  by_cases hu : x.root.parts <+: (x.place path).parts
  case neg =>
    rw [if_neg hu] at hl
    simp only [handle, hq, answer, hl, bind, Except.bind]
    exact .outside hu
  case pos =>
    rw [if_pos hu] at hl
    rcases hf : w.isFile (x.place path).path with _ | _ | _ <;> simp only [hf] at hl <;>
      simp only [handle, hq, answer, hl, bind, Except.bind]
    case error    => exact .failed hu
    case ok.false => exact .missing hu hf
    case ok.true =>
      rcases hs : x.session w (x.place path) with e | s <;> dsimp only
      case error =>
        cases session_error hs
        exact .failed hu
      case ok => exact .served hu hf hs

-- A request that leads nowhere changes nothing.
theorem handle_of_target?_eq_none (h : x.target? f r = none) (w : Workspace) : (x.handle w f r).2 = x := by
  rw [target?] at h
  rw [handle]
  split at h
  case h_1 path q hq =>
    split at h
    case isTrue hn  => simp only [hq, answer, locate_of_nul hn, bind, Except.bind]
    case isFalse hn => cases h
  case h_2 hq =>
    cases hr : x.query f r
    case error => rfl
    case ok q =>
      cases q
      case health          => rfl
      case document path q => exact absurd hr (hq path q)

end Handling

section Keeping

theorem lookup_keep_self (x : Service) (l : Location) (s : Session) :
    (x.keep l s).sessions.lookup l = some s :=
  List.lookup_cons_self

theorem lookup_keep_of_ne (h : k ≠ l) (x : Service) (s : Session) :
    (x.keep l s).sessions.lookup k = x.sessions.lookup k :=
  Shelf.lookup_set h s x.sessions

theorem mem_keep {s' : Session} (h : (k, s') ∈ (x.keep l s).sessions) :
    k = l ∧ s' = s ∨ (k, s') ∈ x.sessions := by
  cases h
  case head   => exact .inl ⟨rfl, rfl⟩
  case tail h => exact .inr (List.mem_filter.mp h).left

theorem nodup_keep (h : (x.sessions.map (·.1)).Nodup) (l : Location) (s : Session) :
    ((x.keep l s).sessions.map (·.1)).Nodup := by
  refine List.nodup_cons.mpr ⟨?_, (List.filter_sublist.map _).nodup h⟩
  simp

theorem session_of_lookup (h : x.sessions.lookup l = some s) (w : Workspace) :
    x.session w l = .ok s := by
  rw [session, h]

-- A session that is opened is one of the place it is opened for.
theorem main_of_session (h : x.session w l = .ok s) (hl : "..".toList ∉ l.parts) :
    (l, s) ∈ x.sessions ∨ s.main = l := by
  rw [session] at h
  split at h
  case h_1 hs =>
    cases h
    have ⟨_, _, he, _⟩ := List.lookup_eq_some_iff.mp hs
    exact .inl (by simp [he])
  case h_2 =>
    cases hs : Session.start w x.settings l.path <;> rw [hs] at h <;> cases h
    exact .inr (Session.main_of_start hs hl)

end Keeping

section Runs

theorem Alike.refl (x : Service) : x.Alike x := rfl

theorem Alike.target?_eq (h : x.Alike now) (f : Framework ρ) (r : ρ) : now.target? f r = x.target? f r := by
  rw [h]
  rfl

theorem Alike.root_eq (h : x.Alike now) : now.root = x.root := by
  rw [h]

theorem Alike.alike {y : Service} (hy : x.Alike y) (h : x.Alike now) : y.Alike now := by
  rw [Alike, h, hy]

theorem Alike.handle (h : x.Alike now) (w : Workspace) (f : Framework ρ) (r : ρ) :
    x.Alike (now.handle w f r).2 := by
  cases ht : now.target? f r
  case none => rwa [handle_of_target?_eq_none ht]
  case some l =>
    have hh := handles ht w
    generalize now.handle w f r = a at hh ⊢
    cases hh
    case served => rw [Alike, keep, h]
    all_goals exact h

theorem Orderly.main_of_session (h : x.Orderly f steps now) (ht : x.target? f r = some l)
    (hs : now.session w l = .ok s) : s.main = l := by
  rcases Service.main_of_session hs (dots_not_mem_of_target? ht) with hm | hm
  · exact (h.opened l s hm).right.left
  · exact hm

theorem Orderly.handle (h : x.Orderly f steps now) (hm : (w, r) ∈ steps) :
    x.Orderly f steps (now.handle w f r).2 := by
  have ha := h.alike.handle w f r
  cases ht : now.target? f r
  case none => rwa [handle_of_target?_eq_none ht]
  case some l =>
    have hh := handles ht w
    rw [h.alike.target?_eq] at ht
    generalize now.handle w f r = a at hh ha ⊢
    cases hh
    case served path q s hu hf hs =>
      refine ⟨ha, nodup_keep h.nodup l _, fun k s' hk => ?_⟩
      rcases mem_keep hk with ⟨rfl, rfl⟩ | hk
      · have ⟨_, hc⟩ := (s.answer_spec w path q).left
        have hl : (s.answer w path q).2.main = k := by rw [hc, h.main_of_session ht hs]
        exact ⟨h.alike.root_eq ▸ hu, hl, w, r, hm, ht, hf⟩
      · exact h.opened k s' hk
    all_goals exact h

theorem Orderly.after {taken : List (Workspace × ρ)} (h : x.Orderly f steps now)
    (ht : taken ⊆ steps) : x.Orderly f steps (now.after f taken) := by
  induction taken generalizing now
  case nil => exact h
  case cons t ts hi =>
    have ⟨hm, ht⟩ := List.cons_subset.mp ht
    exact hi (h.handle hm) ht

theorem Orderly.start (hx : x.sessions = []) (f : Framework ρ) (steps : List (Workspace × ρ)) :
    x.Orderly f steps x where
  alike := rfl
  nodup := by simp [hx]
  opened := by simp [hx]

end Runs

section Replies

theorem reply_fst (x : Service) (w : Workspace) (f : Framework ρ) (r : ρ) :
    (x.reply w f r).1 = .ofResult (x.handle w f r).1 :=
  rfl

theorem status_eq_forbidden_iff (h : x.target? f r = some l) (w : Workspace) :
    (x.reply w f r).1.status = 403 ↔ ¬x.root.parts <+: l.parts := by
  have hh := handles h w
  rw [reply_fst]
  generalize x.handle w f r = a at hh ⊢
  cases hh
  case outside hu   => exact iff_of_true rfl hu
  case missing hu _ => exact iff_of_false (show 404 ≠ 403 by decide) (not_not.mpr hu)
  case failed hu    => exact iff_of_false (show 500 ≠ 403 by decide) (not_not.mpr hu)
  case served path q s hu _ _ =>
    refine iff_of_false ?_ (not_not.mpr hu)
    rcases ha : (s.answer w path q).1 with e | a
    case ok => exact (show 200 ≠ 403 by decide)
    case error =>
      rcases (s.answer_spec w path q).right e ha with rfl | ⟨i, rfl⟩
      · exact (show 500 ≠ 403 by decide)
      · exact (show 404 ≠ 403 by decide)

-- There is no such document, or it is not one to be opened.
def isClosed : Except Refusal Answer → Bool
  | .error (.outside _) | .error (.missing _) => true
  | _ => false

theorem handle_of_isClosed (h : isClosed (x.handle w f r).1) : (x.handle w f r).2 = x := by
  cases ht : x.target? f r
  case none => exact handle_of_target?_eq_none ht w
  case some l =>
    have hh := handles ht w
    generalize x.handle w f r = a at hh h ⊢
    cases hh
    case served path q s _ _ _ =>
      rcases ha : (s.answer w path q).1 with e | a
      case ok => simp [ha, isClosed] at h
      case error => rcases (s.answer_spec w path q).right e ha with rfl | ⟨i, rfl⟩ <;> simp [ha, isClosed] at h
    all_goals rfl

-- The session of a place answers all requests that lead there, and is left to the next of them.
theorem handle_of_session {q : Question} (hq : x.query f r = .ok (.document path q))
    (ht : x.target? f r = some l) (hu : x.root.parts <+: l.parts) (hf : w.isFile l.path = .ok true)
    (hs : x.session w l = .ok s) :
    x.handle w f r = ((s.answer w path q).1, x.keep l (s.answer w path q).2) := by
  obtain ⟨path', q', hq', hn, rfl⟩ := query_of_target? ht
  cases hq.symm.trans hq'
  have hl : x.locate w path = .ok (x.place path) := by rw [locate_of_not_nul hn, if_pos hu, hf]
  simp only [handle, hq, answer, hl, hs, bind, Except.bind]

end Replies

section Isolation

theorem lookup_handle_of_ne (h : x.target? f r ≠ some l) (w : Workspace) :
    (x.handle w f r).2.sessions.lookup l = x.sessions.lookup l := by
  cases ht : x.target? f r
  case none => rw [handle_of_target?_eq_none ht]
  case some k =>
    have hh := handles ht w
    have hk : l ≠ k := fun he => h (he ▸ ht)
    generalize x.handle w f r = a at hh ⊢
    cases hh
    case served => exact lookup_keep_of_ne hk x _
    all_goals rfl

-- Of all sessions, only the one at the place matters.
theorem handle_congr (ha : x.Alike now) (ht : x.target? f r = some l)
    (hl : now.sessions.lookup l = x.sessions.lookup l) (w : Workspace) :
    (now.handle w f r).1 = (x.handle w f r).1 ∧
      (now.handle w f r).2.sessions.lookup l = (x.handle w f r).2.sessions.lookup l := by
  obtain ⟨path, q, hq, hn, rfl⟩ := query_of_target? ht
  have hq' : now.query f r = x.query f r := by rw [ha]; rfl
  have hw : now.locate w path = x.locate w path := by rw [ha]; rfl
  have hs : now.session w (x.place path) = x.session w (x.place path) := by
    rw [session, session, hl, ha]
  simp only [handle, hq', hq, answer, hw]
  cases hx : x.locate w path
  case error => exact ⟨rfl, hl⟩
  case ok k =>
    cases place_of_locate hn hx
    simp only [hs, bind, Except.bind]
    cases x.session w (x.place path)
    case error => exact ⟨rfl, hl⟩
    case ok s  => exact ⟨rfl, (lookup_keep_self ..).trans (lookup_keep_self ..).symm⟩

-- Requests that lead to other places may be left out.
theorem lookup_after_filter (ha : x.Alike now) {y : Service} (hy : x.Alike y)
    (hl : now.sessions.lookup l = y.sessions.lookup l) (w : Workspace) (rs : List ρ) :
    (now.after f (rs.map (w, ·))).sessions.lookup l =
      (y.after f ((rs.filter (x.target? f · = some l)).map (w, ·))).sessions.lookup l := by
  induction rs generalizing now y
  case nil => exact hl
  case cons r rs hi =>
    by_cases ht : x.target? f r = some l
    case pos =>
      rw [List.filter_cons_of_pos (by simpa using ht)]
      refine hi (ha.handle w f r) (hy.handle w f r) ?_
      exact (handle_congr (hy.alike ha) (hy.target?_eq f r ▸ ht) hl w).right
    case neg =>
      rw [List.filter_cons_of_neg (by simpa using ht)]
      refine hi (ha.handle w f r) hy ?_
      rw [lookup_handle_of_ne (by rwa [ha.target?_eq]), hl]

end Isolation

-- What holds of a service after any requests, and of what it does next.
structure Confined (x : Service) (f : Framework ρ) (steps : List (Workspace × ρ)) (now : Service) : Prop where
  forbids : ∀ w r l, x.target? f r = some l →
    ((now.reply w f r).1.status = 403 ↔ ¬x.root.parts <+: l.parts)
  single : (now.sessions.map (·.1)).Nodup
  opened : ∀ l s, (l, s) ∈ now.sessions →
    x.root.parts <+: l.parts ∧ s.main = l ∧
      ∃ w r, (w, r) ∈ steps ∧ x.target? f r = some l ∧ w.isFile l.path = .ok true
  shares : ∀ w r l path q s, x.query f r = .ok (.document path q) → x.target? f r = some l →
    x.root.parts <+: l.parts → w.isFile l.path = .ok true → now.session w l = .ok s →
      now.handle w f r = ((s.answer w path q).1, now.keep l (s.answer w path q).2) ∧
        ∀ w', (now.handle w f r).2.session w' l = .ok (s.answer w path q).2
  refuses : ∀ w r, isClosed (now.handle w f r).1 → (now.handle w f r).2 = now

theorem Orderly.confined (h : x.Orderly f steps now) : x.Confined f steps now where
  forbids w r l ht := by
    rw [←h.alike.target?_eq] at ht
    rw [status_eq_forbidden_iff ht, h.alike.root_eq]
  single := h.nodup
  opened := h.opened
  shares w r l path q s hq ht hu hf hs := by
    rw [←h.alike.target?_eq] at ht
    rw [←h.alike.root_eq] at hu
    have hq : now.query f r = .ok (.document path q) := by rw [h.alike]; exact hq
    have hh := handle_of_session hq ht hu hf hs
    exact ⟨hh, fun w' => hh ▸ session_of_lookup (lookup_keep_self ..) w'⟩
  refuses _ _ := handle_of_isClosed

-- Whatever was asked for before, nothing outside the root is open and each document has one session.
-- How a document is answered, and what its session has become, is told by the requests for it alone.
theorem sessions_confined (f : Framework ρ) (x : Service) (hx : x.sessions = []) :
    (∀ steps, x.Confined f steps (x.after f steps)) ∧
    ∀ (w : Workspace) (l : Location) (rs rs' : List ρ),
      rs.filter (x.target? f · = some l) = rs'.filter (x.target? f · = some l) →
        let now := x.after f (rs.map (w, ·))
        let now' := x.after f (rs'.map (w, ·))
        now.sessions.lookup l = now'.sessions.lookup l ∧
          ∀ r, x.target? f r = some l → (now.reply w f r).1 = (now'.reply w f r).1 := by
  have ho (steps : List (Workspace × ρ)) : x.Orderly f steps (x.after f steps) :=
    (Orderly.start hx f steps).after (List.Subset.refl _)
  refine ⟨fun steps => (ho steps).confined, ?_⟩
  intro w l rs rs' hf now now'
  have hl : now.sessions.lookup l = now'.sessions.lookup l := by
    rw [lookup_after_filter (.refl x) (.refl x) rfl w rs, hf,
      ←lookup_after_filter (.refl x) (.refl x) rfl w rs']
  refine ⟨hl, fun r ht => ?_⟩
  have ha := (ho (rs.map (w, ·))).alike
  have ha' := (ho (rs'.map (w, ·))).alike
  rw [reply_fst, reply_fst, (handle_congr (ha'.alike ha) (ha'.target?_eq f r ▸ ht) hl w).left]

-- A request that carries nothing but texts.
structure Plain where
  method : Text
  path : Text
  params : List (Text × Text)

def plain : Framework Plain where
  route routes r :=
    match routes.find? (·.path = r.path) with
    | none       => .error ⟨404, some "Not Found".toList⟩
    | some route =>
      if route.method = r.method then .ok route.endpoint
      else .error ⟨405, some "Method Not Allowed".toList⟩
  credentials _ := none
  text name r := .ok (r.params.lookup name)
  flag _ _ := .ok none
  index _ _ := .ok none
  incomplete := ⟨422, none⟩

-- Two files of the same name, of which the root holds one.
def twoHalls : Workspace where
  tree :=
    { nodes :=
        [(⟨["w".toList]⟩, .directory), (⟨["w".toList, "hall.org".toList]⟩, .file [104, 105]),
          (⟨["hall.org".toList]⟩, .file [104, 111])] }

namespace twoHalls

def service : Service where
  settings := {}
  root := ⟨["w".toList]⟩

def ask (path : Text) : Plain where
  method := "GET".toList
  path := "/render".toList
  params := [("path".toList, path)]

def hall : Location :=
  ⟨["w".toList, "hall.org".toList]⟩

def asked : List Plain :=
  [ask "hall.org".toList, ask "../hall.org".toList, ask "attic/../hall.org".toList]

end twoHalls

open twoHalls in
theorem sessions_confined_twoHalls :
    let now := service.after plain (asked.map (twoHalls, ·))
    let now' := service.after plain ([ask "hall.org".toList, ask "attic/../hall.org".toList].map (twoHalls, ·))
    now.sessions.map (·.1) = [hall] ∧
      (now.reply twoHalls plain (ask "/hall.org".toList)).1.status = 403 ∧
      (now.handle twoHalls plain (ask "cellar.org".toList)).2 = now ∧
      now.sessions.lookup hall = now'.sessions.lookup hall := by
  intro now now'
  have ⟨hc, hi⟩ := sessions_confined plain service rfl
  have hn := hc (asked.map (twoHalls, ·))
  have hl : service.target? plain (ask "/hall.org".toList) = some ⟨["hall.org".toList]⟩ := by
    decide +kernel
  have hf : asked.filter (service.target? plain · = some hall) =
      [ask "hall.org".toList, ask "attic/../hall.org".toList] := by
    have h₁ : service.target? plain (ask "hall.org".toList) = some hall := by decide +kernel
    have h₂ : service.target? plain (ask "../hall.org".toList) ≠ some hall := by decide +kernel
    have h₃ : service.target? plain (ask "attic/../hall.org".toList) = some hall := by decide +kernel
    rw [asked, List.filter_cons_of_pos (by exact decide_eq_true h₁),
      List.filter_cons_of_neg (by exact mt of_decide_eq_true h₂),
      List.filter_cons_of_pos (by exact decide_eq_true h₃), List.filter_nil]
  refine ⟨by decide +kernel, (hn.forbids _ _ _ hl).mpr (by decide), hn.refuses _ _ (by decide +kernel), ?_⟩
  refine (hi twoHalls hall _ _ ?_).left
  rw [←hf, List.filter_filter]
  simp

end Service

end Transclusion
