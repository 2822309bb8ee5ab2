import Transclusion.Proofs.Shelf.Documents

namespace Transclusion.Shelf

section Entries

variable {α β : Type} [BEq α] [LawfulBEq α] {k m : α}

theorem lookup_unset (h : m ≠ k) (xs : List (α × β)) : (unset k xs).lookup m = xs.lookup m := by
  rw [unset]
  induction xs
  case nil => rfl
  case cons x xs hi =>
    obtain ⟨l, v⟩ := x
    by_cases hl : l = k
    case pos => simp [hl, hi, List.lookup_cons, beq_false_of_ne h]
    case neg => simp [hl, hi, List.lookup_cons]

theorem lookup_set (h : m ≠ k) (v : β) (xs : List (α × β)) : (set k v xs).lookup m = xs.lookup m := by
  have hu := lookup_unset h xs
  rwa [set, List.lookup_cons, beq_false_of_ne h]

end Entries

-- The second shelf has the same documents as the first, except perhaps the one called `name`.
inductive AlikeBut (name : Text) (s : Shelf) : Shelf → Prop
  | mk {files} (h : ∀ m, m ≠ name → files.lookup m = s.files.lookup m) :
    AlikeBut name s { s with files }

theorem alikeBut_write (s : Shelf) (name text : Text) : AlikeBut name s (s.write name text) :=
  .mk fun _ h => lookup_set h text s.files

theorem alikeBut_delete (s : Shelf) (name : Text) : AlikeBut name s (s.delete name) :=
  .mk fun _ h => lookup_unset h s.files

-- How a link leads to a document.
inductive Leads (s : Shelf) (l : Link) : Source → Prop
  | searched {src} (hi : l.scheme = some "id:".toList) (hq : s.searchable) (hs : s.scope.isSome)
    (h : s.search l.body = .ok (some src)) : Leads s l src
  | beside {src} (hi : l.scheme ≠ some "id:".toList) (hr : l.isRelative) (hp : s.needsParent = false)
    (h : s.beside l.body = .ok src) : Leads s l src

variable {s s' : Shelf} {name path : Text} {src : Source} {d : Directive}
  {e : Included}

theorem follow_eq_ok_iff : (s.library.follow d).1 = .ok src ↔ s.Leads d.link src := by
  constructor
  case mp =>
    intro h
    rw [Library.follow] at h
    split at h
    case isTrue hi =>
      split at h
      case h_1 search scope hq hs =>
        simp only [library, Option.ite_none_right_eq_some, Option.some.injEq] at hq hs
        obtain ⟨hq, rfl⟩ := hq
        refine .searched hi hq (by simp [hs]) ?_
        split at h <;> simp_all
      case h_2 => cases h
    case isFalse hi =>
      split at h
      case isTrue hr =>
        split at h
        case h_1 beside hp =>
          simp only [library, Option.ite_none_left_eq_some, Option.some.injEq] at hp
          obtain ⟨hp, rfl⟩ := hp
          exact .beside hi hr (by simpa using hp) (mapError_eq_ok_iff.mp h)
        case h_2 => cases h
      case isFalse => cases h
  case mpr =>
    intro h
    cases h
    case searched hi hq hs h =>
      obtain ⟨scope, hs⟩ := Option.isSome_iff_exists.mp hs
      simp [Library.follow, hi, library, hq, hs, h]
    case beside hi hr hp h =>
      rw [Library.follow, if_neg hi, if_pos hr]
      simp [library, hp, h]

theorem name_of_beside (h : s.beside path = .ok src) :
    ∃ m, src = source m ∧ m = (Text.after? "./".toList path).getD path := by
  have hb := attempt_eq_ok h
  split at hb
  · exact ⟨_, (Except.ok.inj hb).symm, rfl⟩
  · cases hb

theorem Leads.source {l : Link} (h : s.Leads l src) : ∃ m, src = source m := by
  cases h
  case searched h =>
    have hm := Except.ok.inj (attempt_eq_ok h)
    obtain ⟨m, _, rfl⟩ := Option.map_eq_some_iff.mp hm
    exact ⟨m, rfl⟩
  case beside h =>
    have ⟨m, hm, _⟩ := name_of_beside h
    exact ⟨m, hm⟩

namespace AlikeBut

theorem beside (ha : AlikeBut name s s') (h : s.beside path = .ok src) (hn : src ≠ source name) :
    s'.beside path = .ok src := by
  cases ha
  case mk files hf =>
    obtain ⟨m, rfl, hm⟩ := name_of_beside h
    have hm' : m ≠ name := by
      rintro rfl
      exact hn rfl
    simpa only [Shelf.beside, attempt, ←hm, hf m hm'] using h

theorem leads (ha : AlikeBut name s s') (h : s.Leads d.link src) (hn : src ≠ source name) :
    s'.Leads d.link src := by
  have hb : s.beside d.link.body = .ok src → s'.beside d.link.body = .ok src :=
    fun h => ha.beside h hn
  cases ha
  cases h
  case searched hi hq hs h => exact .searched hi hq hs h
  case beside hi hr hp h   => exact .beside hi hr hp (hb h)

theorem document (ha : AlikeBut name s s') {doc : Document} {m : Text}
    (h : s.library.document (source m) = .ok doc) (hm : m ≠ name) :
    s'.library.document (source m) = .ok doc := by
  cases ha
  case mk files hf =>
    have hc : Shelf.content { s with files } m = s.content m := by
      simp only [content, attempt, hf m hm]
    simpa only [Library.document, library, source, hc, parse, attempt] using h

-- What is included from another document is included as before.
theorem fetch (ha : AlikeBut name s s') (h : (s.library.fetch d).1 = .ok e)
    (hn : e.source ≠ some (source name)) : (s'.library.fetch d).1 = .ok e := by
  have ⟨src, doc, t, hs, hd, ht, hc, hi, he⟩ := Library.fetch_eq_ok h
  rw [he, Ne, Option.some.injEq] at hn
  have hl := follow_eq_ok_iff.mp hs
  obtain ⟨m, rfl⟩ := hl.source
  have hm : m ≠ name := fun h => hn (h ▸ rfl)
  have hf := Library.fetch_of_eq_ok (follow_eq_ok_iff.mpr (ha.leads hl hn)) (ha.document hd hm) ht
  rw [hf, ←hc, ←hi, ←he]

end AlikeBut

end Transclusion.Shelf
