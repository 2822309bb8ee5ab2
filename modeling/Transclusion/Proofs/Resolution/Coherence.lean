import Transclusion.Proofs.Cache.Entries
import Transclusion.Proofs.Resolution.Refusal

namespace Transclusion

namespace Library

variable {lib : Library} {d d' : Directive} {e : Included}

-- What is included depends on nothing but the identity of the directive.
theorem fetch_congr (h : d.identity = d'.identity) : lib.fetch d = lib.fetch d' := by
  have hl : d.link = d'.link := congrArg (·.link) h
  have hn : d.noFirstHeading = d'.noFirstHeading := congrArg (·.noFirstHeading) h
  have ho : d.onlyContents = d'.onlyContents := congrArg (·.onlyContents) h
  have hr : d.reshape = d'.reshape := by
    funext t
    cases t <;> simp [Directive.reshape, hn, ho]
  have hf : Failure.ofLinkFault d = Failure.ofLinkFault d' := by
    funext f
    simp only [Failure.ofLinkFault, hl]
  simp only [fetch, follow, Directive.target, Directive.sourceId, hl, hr, hf]

theorem fetch_of_eq_ok {s : Source} {doc : Document} {t : Tree} {target : Option Text}
    (hs : (lib.follow d).1 = .ok s) (hd : lib.document s = .ok doc)
    (ht : d.target doc = .ok (t, target)) :
    (lib.fetch d).1 =
      .ok { content := d.reshape t, sourceId := d.sourceId, source := some s, target } := by
  rcases hf : lib.follow d with ⟨_, log⟩
  rw [hf] at hs
  cases hs
  simp only [fetch, hf, hd, ht, bind, Except.bind]

-- How a document that is included was come by.
theorem fetch_eq_ok (h : (lib.fetch d).1 = .ok e) :
    ∃ s doc t, (lib.follow d).1 = .ok s ∧ lib.document s = .ok doc ∧
      d.target doc = .ok (t, e.target) ∧ e.content = d.reshape t ∧ e.sourceId = d.sourceId ∧
      e.source = some s := by
  rw [fetch] at h
  split at h
  case h_1 => cases h
  case h_2 s log hs =>
    cases hd : lib.document s
    case error => simp [hd, bind, Except.bind] at h
    case ok doc =>
      cases ht : d.target doc
      case error => simp [hd, ht, bind, Except.bind] at h
      case ok x =>
        simp only [hd, ht, bind, Except.bind, Except.ok.injEq] at h
        cases h
        exact ⟨s, doc, x.1, by rw [hs], hd, ht, rfl, rfl, rfl⟩

theorem sourceId_of_fetch (h : (lib.fetch d).1 = .ok e) : e.sourceId = d.sourceId :=
  have ⟨_, _, _, _, _, _, _, hi, _⟩ := fetch_eq_ok h
  hi

theorem accesses_of_follow {s : Source} (h : (lib.follow d).1 = .ok s) :
    (lib.follow d).2 = [.beside d.link.body] ∨
      ∃ scope, lib.scope = some scope ∧ (lib.follow d).2 = [.search scope d.link.body] := by
  by_cases hid : d.link.scheme = some "id:".toList
  case pos =>
    rw [follow, if_pos hid] at h ⊢
    cases hs : lib.search? <;> cases hc : lib.scope <;> simp only [hs, hc, reduceCtorEq] at h
    case some.some scope => exact .inr ⟨scope, rfl, rfl⟩
  case neg =>
    rw [follow, if_neg hid] at h ⊢
    split at h
    case isTrue hr =>
      rw [if_pos hr]
      cases hb : lib.beside? <;> simp only [hb, reduceCtorEq] at h
      case some => exact .inl rfl
    case isFalse => cases h

-- What is included was looked up in one place and read once.
theorem accesses_of_fetch (h : (lib.fetch d).1 = .ok e) :
    ∃ s, e.source = some s ∧
      ((lib.fetch d).2 = [.beside d.link.body, .fetch s.name] ∨
        ∃ scope, lib.scope = some scope ∧
          (lib.fetch d).2 = [.search scope d.link.body, .fetch s.name]) := by
  have ⟨s, _, _, hs, _, _, _, _, he⟩ := fetch_eq_ok h
  have ha := accesses_of_follow hs
  have hl : (lib.fetch d).2 = (lib.follow d).2 ++ [.fetch s.name] := by
    rcases hf : lib.follow d with ⟨_, log⟩
    rw [hf] at hs
    cases hs
    simp [fetch, hf]
  refine ⟨s, he, ha.imp (fun ha => ?_) ?_⟩
  · rw [hl, ha, List.singleton_append]
  · rintro ⟨scope, hc, ha⟩
    exact ⟨scope, hc, by rw [hl, ha, List.singleton_append]⟩

end Library

section Resolving

variable (lib : Library) (limit : DepthLimit) (ancestors : List Text) (d : Directive) (cache : Cache)

-- What comes of a directive when nothing is cached.
def fresh : Outcome :=
  match refusal? limit ancestors d with
  | some f => .error f
  | none => (lib.fetch d).1.map (⟨·, d.sourceName⟩)

variable {lib limit ancestors d cache}

theorem fresh_eq_ok_iff {s : Success} :
    fresh lib limit ancestors d = .ok s ↔
      refusal? limit ancestors d = none ∧ (lib.fetch d).1 = .ok s.included ∧ s.name = d.sourceName := by
  rw [fresh]
  cases refusal? limit ancestors d
  case some => simp
  case none =>
    cases (lib.fetch d).1 <;> simp only [Except.map, reduceCtorEq, false_and, and_false, true_and,
      Except.ok.injEq]
    case ok e =>
      constructor
      case mp =>
        rintro rfl
        exact ⟨rfl, rfl⟩
      case mpr =>
        rintro ⟨rfl, hn⟩
        rw [←hn]

-- Nothing else matters of a library.
theorem resolve_congr {lib' : Library} (h : lib.fetch d = lib'.fetch d) (limit : DepthLimit)
    (ancestors : List Text) (cache : Cache) :
    resolve lib limit ancestors d cache = resolve lib' limit ancestors d cache := by
  simp only [resolve, h]

-- Nothing is cached where the limit lets nothing succeed.
theorem Cache.All.resolve {p : Directive.Identity → Included → Prop} (h : cache.All p)
    (hp : ∀ e, 0 < limit.bound → (lib.fetch d).1 = .ok e → p d.identity e) :
    (resolve lib limit ancestors d cache).cache.All p := by
  have hs := resolves lib limit ancestors d cache
  generalize Transclusion.resolve lib limit ancestors d cache = x at hs ⊢
  cases hs
  case refused => exact h
  case hit hc  => exact h.touch (h.find? hc)
  case failed  => exact h
  case fetched hr _ hf =>
    have hl := (refusal?_eq_none_iff.mp hr).left
    exact h.put (hp _ (by omega) (by rw [hf]))

-- Whatever is included has the property too.
theorem Cache.All.of_resolve {p : Directive.Identity → Included → Prop} {s : Success}
    (h : cache.All p) (hp : ∀ e, 0 < limit.bound → (lib.fetch d).1 = .ok e → p d.identity e)
    (ho : (Transclusion.resolve lib limit ancestors d cache).outcome = .ok s) :
    refusal? limit ancestors d = none ∧ p d.identity s.included := by
  have hs := resolves lib limit ancestors d cache
  generalize Transclusion.resolve lib limit ancestors d cache = x at hs ho
  cases hs <;> cases ho
  case hit hr hc => exact ⟨hr, h.find? hc⟩
  case fetched hr _ hf =>
    have hl := (refusal?_eq_none_iff.mp hr).left
    exact ⟨hr, hp _ (by omega) (by rw [hf])⟩

end Resolving

namespace Cache

-- What the library has for the directives under a key.
def Fits (lib : Library) (k : Directive.Identity) (e : Included) : Prop :=
  ∀ d : Directive, d.identity = k → (lib.fetch d).1 = .ok e

-- Each entry is what would be included if it were not cached.
def Coherent (lib : Library) (c : Cache) : Prop :=
  c.All (Fits lib)

variable {lib : Library} {limit : DepthLimit} {ancestors : List Text} {d : Directive} {c : Cache}

theorem fits_of_fetch {e : Included} (h : (lib.fetch d).1 = .ok e) : Fits lib d.identity e :=
  fun _ hi => Library.fetch_congr hi ▸ h

theorem Coherent.resolve (h : c.Coherent lib) :
    (resolve lib limit ancestors d c).cache.Coherent lib :=
  All.resolve h fun _ _ => fits_of_fetch

theorem Coherent.resolve_outcome (h : c.Coherent lib) :
    (Transclusion.resolve lib limit ancestors d c).outcome = fresh lib limit ancestors d := by
  have hs := resolves lib limit ancestors d c
  generalize Transclusion.resolve lib limit ancestors d c = x at hs ⊢
  cases hs
  case refused hr    => simp [fresh, hr]
  case hit e hr hc   => exact (fresh_eq_ok_iff.mpr ⟨hr, h.find? hc d rfl, rfl⟩).symm
  case failed hr _ hf  => simp [fresh, hr, hf, Except.map]
  case fetched hr _ hf => simp [fresh, hr, hf, Except.map]

end Cache

end Transclusion
