import Transclusion.Proofs.Results
import Transclusion.Resolution

namespace Transclusion

-- The failures that end endless inclusion.
def Failure.isRefusal : Failure → Bool
  | circular | tooDeep _ => true
  | _ => false

section Failures

variable {lib : Library} {d : Directive} {f : Failure}

theorem Failure.not_isRefusal_ofFault (e : Fault) : ¬(ofFault e).isRefusal := by
  rw [ofFault]
  split <;> exact Bool.false_ne_true

theorem Failure.not_isRefusal_ofLinkFault (e : Fault) : ¬(ofLinkFault d e).isRefusal := by
  rw [ofLinkFault]
  split <;> exact Bool.false_ne_true

theorem Library.not_isRefusal_of_follow (h : (lib.follow d).1 = .error f) : ¬f.isRefusal := by
  have hl := Failure.not_isRefusal_ofLinkFault (d := d)
  rw [follow] at h
  split at h
  case isTrue =>
    split at h
    case h_1 =>
      dsimp only at h
      split at h <;> cases h
      · exact Bool.false_ne_true
      · exact hl _
    case h_2 =>
      cases h
      exact Bool.false_ne_true
  case isFalse =>
    split at h
    case isTrue =>
      split at h
      case h_1 beside _ =>
        cases hb : beside d.link.body <;> simp only [hb, mapError_ok, mapError_error] at h <;> cases h
        exact hl _
      case h_2 =>
        cases h
        exact Bool.false_ne_true
    case isFalse =>
      cases h
      exact Bool.false_ne_true

theorem Library.not_isRefusal_of_document {s : Source} (h : lib.document s = .error f) :
    ¬f.isRefusal := by
  rw [document] at h
  split at h
  case h_1 e _ =>
    cases h
    exact Failure.not_isRefusal_ofFault e
  case h_2 text _ =>
    cases hp : lib.parse text <;> simp only [hp, mapError_ok, mapError_error] at h <;> cases h
    exact Bool.false_ne_true

theorem Directive.not_isRefusal_of_target {doc : Document} (h : d.target doc = .error f) :
    ¬f.isRefusal := by
  rw [target] at h
  split at h
  case h_1 => cases h
  case h_2 =>
    split at h <;> cases h
    exact Bool.false_ne_true

theorem Library.not_isRefusal_of_fetch (h : (lib.fetch d).1 = .error f) : ¬f.isRefusal := by
  rw [fetch] at h
  split at h
  case h_1 hs =>
    cases h
    exact not_isRefusal_of_follow (by rw [hs])
  case h_2 s _ _ =>
    cases hd : lib.document s
    case error =>
      simp only [hd, bind, Except.bind] at h
      cases h
      exact not_isRefusal_of_document hd
    case ok doc =>
      cases ht : d.target doc <;> simp only [hd, ht, bind, Except.bind] at h <;> cases h
      exact Directive.not_isRefusal_of_target ht

end Failures

section Resolving

variable (lib : Library) (limit : DepthLimit) (ancestors : List Text) (d : Directive) (cache : Cache)

-- All that can come of a directive.
inductive Resolves : Resolution → Prop
  | refused {f} (hr : refusal? limit ancestors d = some f) : Resolves ⟨.error f, cache, []⟩
  | hit {e} (hr : refusal? limit ancestors d = none) (hc : cache.find? d.identity = some e) :
    Resolves ⟨.ok ⟨e, d.sourceName⟩, cache.touch d.identity e, []⟩
  | failed {f log} (hr : refusal? limit ancestors d = none) (hc : cache.find? d.identity = none)
    (hf : lib.fetch d = (.error f, log)) : Resolves ⟨.error f, cache, log⟩
  | fetched {e log} (hr : refusal? limit ancestors d = none) (hc : cache.find? d.identity = none)
    (hf : lib.fetch d = (.ok e, log)) : Resolves ⟨.ok ⟨e, d.sourceName⟩, cache.put d e, log⟩

theorem resolves : Resolves lib limit ancestors d cache (resolve lib limit ancestors d cache) := by
  cases hr : refusal? limit ancestors d
  case some f =>
    simp only [resolve, hr]
    exact .refused hr
  case none =>
    cases hc : cache.find? d.identity
    case some e =>
      simp only [resolve, hr, Cache.get_of_some hc]
      exact .hit hr hc
    case none =>
      rcases hf : lib.fetch d with ⟨_ | _, _⟩ <;>
        simp only [resolve, hr, Cache.get_of_none hc, hf, Resolution.ofFetch]
      case error => exact .failed hr hc hf
      case ok    => exact .fetched hr hc hf

variable {lib limit ancestors d cache}

theorem refusal?_eq_none_iff :
    refusal? limit ancestors d = none ↔ ancestors.length < limit.bound ∧ d.sourceId ∉ ancestors := by
  rw [refusal?]
  split
  · simp only [reduceCtorEq, false_iff, not_and]
    omega
  · split <;> simp_all

theorem refusal?_eq_tooDeep_iff {l : DepthLimit} :
    refusal? limit ancestors d = some (.tooDeep l) ↔ limit.bound ≤ ancestors.length ∧ l = limit := by
  rw [refusal?]
  split
  case isTrue h  => simp [h, eq_comm]
  case isFalse h => split <;> simp [h]

theorem refusal?_eq_circular_iff :
    refusal? limit ancestors d = some .circular ↔
      ancestors.length < limit.bound ∧ d.sourceId ∈ ancestors := by
  rw [refusal?]
  split
  case isTrue h  => simp [Nat.not_lt.mpr h]
  case isFalse h => split <;> simp_all

-- Refusals come from the checks alone, whatever the library and the cache.
theorem resolve_eq_refusal_iff {f : Failure} (h : f.isRefusal) :
    (resolve lib limit ancestors d cache).outcome = .error f ↔
      refusal? limit ancestors d = some f := by
  have hs := resolves lib limit ancestors d cache
  generalize resolve lib limit ancestors d cache = x at hs ⊢
  cases hs
  case refused hr => simp [hr]
  case hit hr _   => simp [hr]
  case fetched hr _ _ => simp [hr]
  case failed hr _ hf =>
    simp only [hr, reduceCtorEq, iff_false, Except.error.injEq]
    rintro rfl
    exact Library.not_isRefusal_of_fetch (by rw [hf]) h

end Resolving

end Transclusion
