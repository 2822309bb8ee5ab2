import Transclusion.Desk
import Transclusion.Proofs.Directive.Grammar
import Transclusion.Proofs.Expansion.Ends
import Transclusion.Proofs.Expansion.Plain
import Transclusion.Proofs.Outline.Blocks
import Transclusion.Proofs.Outline.OutsideBlocks
import Transclusion.Proofs.Shelf.Faults
import Transclusion.Proofs.Text.Digits

namespace Transclusion

-- The line would be a directive, but for the number of digits in its first level.
def Keyword.IsOverlong (k : Keyword) : Prop :=
  Directive.isMarked k ∧ ∃ raw description rest link digits,
    Directive.brackets? (Text.trim (k.value.getD [])) = some (raw, description, rest) ∧
      Link.ofText raw = .ok link ∧ Directive.levelDigits? (Text.trim rest) = some digits ∧
        4300 < digits.length

section Keywords

variable {k : Keyword}

-- The level is read last, so nothing else is wrong with such a line.
theorem Directive.ofKeyword_eq_error_iff : (∃ o, ofKeyword k = .error o) ↔ k.IsOverlong := by
  rw [ofKeyword, Keyword.IsOverlong]
  cases hm : isMarked k
  case false => simp
  case true =>
    cases hb : brackets? (Text.trim (k.value.getD []))
    case none => simp
    case some b =>
      obtain ⟨raw, description, rest⟩ := b
      cases hl : Link.ofText raw
      case error => simp [hl]
      case ok link =>
        have hr : (∃ o, readLevel (Text.trim rest) = .error o) ↔
            ∃ digits, levelDigits? (Text.trim rest) = some digits ∧ 4300 < digits.length := by
          simp [readLevel_eq_error_iff, Overlong.limit]
        cases hv : readLevel (Text.trim rest) <;> simpa [hv, hl, Except.map] using hr

theorem not_legible_iff {ks : List Keyword} : ¬Legible ks ↔ ∃ k ∈ ks, k.IsOverlong := by
  simp only [Legible, not_forall, ←Directive.ofKeyword_eq_error_iff]
  refine exists_congr fun k => ?_
  cases Directive.ofKeyword k <;> simp

-- A level that was read can be printed.
theorem Directive.prints_of_ofKeyword {d : Directive} (h : ofKeyword k = .ok (some d)) : d.prints := by
  by_cases hs : ∃ link description rest, k.Spells link description rest
  case neg =>
    push Not at hs
    cases (ofKeyword_of_not_spells hs).symm.trans h
  case pos =>
    obtain ⟨_, _, rest, hs⟩ := hs
    have ⟨_, _, he⟩ := ofKeyword_of_spells hs
    rw [he, ofParts, readLevel] at h
    cases hd : levelDigits? (Text.trim rest) <;> simp only [hd] at h
    case none =>
      cases h
      rfl
    case some digits =>
      split at h <;> cases h
      case isFalse hl =>
        have hn := Text.length_ofNat_numeral_le (by decide) (Nat.not_lt.mp hl)
        exact decide_eq_true ((List.length_filter_le ..).trans hn)

theorem Tree.prints_of_mem_occurrences {t : Tree} {d : Directive} (h : d ∈ t.occurrences) :
    d.prints := by
  obtain ⟨k, _, hk⟩ := List.mem_filterMap.mp h
  cases ho : Directive.ofKeyword k <;> simp only [Keyword.directive?, ho, reduceCtorEq] at hk
  case ok => exact Directive.prints_of_ofKeyword (ho.trans (congrArg _ hk))

end Keywords

namespace Renderer

variable {r : Renderer} {n : Nat} {tasks : List Task} {cache : Cache} {x : Expansion (List Text)}

section Legibility

-- A call tells of its task, and of all below it, that nothing is overlong.
theorem legibleBelow_of_innerOf {c : Call} {ts : List Task}
    (ho : c.outcome = fresh r.library r.limit c.task.ancestors c.task.directive)
    (hi : c.task.innerOf c.outcome = .ok ts) (ht : ∀ u ∈ ts, r.LegibleBelow u) :
    r.LegibleBelow c.task := by
  intro s hs ancestors u hr
  rw [ho, hs] at hi
  obtain ⟨hl, rfl⟩ := Task.innerOf_ok hi
  rw [Library.sourceId_of_fetch (fresh_eq_ok_iff.mp hs).right.left] at ht
  cases hr with
  | here            => exact hl
  | inside hd hs hr => exact ht _ (List.mem_map_of_mem hd) _ hs _ _ hr

theorem legibleBelow_of_resolveAll {inner : List (List Task)} (hc : cache.Coherent r.library)
    (hi : (r.resolveAll tasks cache).1.mapM (fun c => c.task.innerOf c.outcome) = .ok inner)
    (hb : ∀ u ∈ (r.resolveAll tasks cache).1.flatMap Call.inner, r.LegibleBelow u) :
    ∀ t ∈ tasks, r.LegibleBelow t := by
  intro t ht
  rw [←resolveAll_tasks (r := r) tasks cache] at ht
  obtain ⟨c, hm, rfl⟩ := List.mem_map.mp ht
  have ho := (madeWith_of_mem_resolveAll gives_fits hc c hm).outcome_eq
  have ⟨ts, hts, hi'⟩ := exists_of_mapM_of_mem hi hm
  rw [flatMap_inner hi] at hb
  exact legibleBelow_of_innerOf ho hi' fun u hu => hb u (List.mem_flatten.mpr ⟨ts, hts, hu⟩)

-- An expansion that gives texts has met no overlong level.
theorem Expands.legibleBelow {us : List Text} (h : r.Expands n tasks cache x)
    (hc : cache.Coherent r.library) (hx : x.result = .ok us) : ∀ t ∈ tasks, r.LegibleBelow t := by
  induction h generalizing us
  case last hn =>
    have ⟨_, _, hi, _⟩ := gather_eq_ok hx
    exact legibleBelow_of_resolveAll hc hi (hn ▸ List.forall_mem_nil _)
  case starved =>
    have ⟨_, _, _, ht⟩ := gather_eq_ok hx
    cases ht
  case deeper hr =>
    have ⟨_, _, hi, ht⟩ := gather_eq_ok hx
    exact legibleBelow_of_resolveAll hc hi (hr (all_resolveAll gives_fits hc) ht)

end Legibility

-- How a rendering ends: where it stops, and what it gives if it does not.
structure Localizes (r : Renderer) (ancestors : List Text) (t : Tree)
    (result : Except Interruption Text) : Prop where
  stops : (∃ i, result = .error i) ↔
    ∃ ancestors' u, r.Reaches ancestors t ancestors' u ∧ ∃ k ∈ u.keywords, k.IsOverlong
  reason : ∀ i, result = .error i → ∃ o, i = .overlong o
  shows : ∀ text, result = .ok text → ∃ inserted : List Text → Directive → Text,
    text = t.markupWith (r.style.line (inserted ancestors)) ∧
      (∀ ancestors d f, fresh r.library r.limit ancestors d = .error f →
        inserted ancestors d = failureText f) ∧
      ∀ ancestors d s, fresh r.library r.limit ancestors d = .ok s →
        inserted ancestors d = (if r.style.headers then headerLine d else []) ++
          s.included.content.markupWith (r.style.line (inserted (ancestors.insert d.sourceId)))

section Printing

variable {limit : DepthLimit} {ancestors : List Text} {d : Directive} {t : Tree}

-- A refusal tells of nothing but the limit, and all else of nothing but the level.
theorem prints_of_allows (hl : Overlong.allows limit.text) (hd : d.prints) :
    Transclusion.prints limit ancestors d := by
  rw [Transclusion.prints, refusal?]
  split_ifs
  · exact hl
  · rfl
  · exact hd

theorem Expands.prints (h : r.Expands n tasks cache x) (ht : ∀ t ∈ tasks, t.directive.prints) :
    ∀ c ∈ x.calls, c.task.directive.prints := by
  induction h
  case last | starved => exact fun c hm => ht _ (task_mem_of_mem_resolveAll hm)
  case deeper hr =>
    refine List.forall_mem_append.mpr ⟨fun c hm => ht _ (task_mem_of_mem_resolveAll hm), hr ?_⟩
    intro u hu
    obtain ⟨c, _, hu⟩ := List.mem_flatMap.mp hu
    obtain ⟨_, _, d, hd, rfl⟩ := Call.exists_of_mem_inner hu
    exact Tree.prints_of_mem_occurrences hd

theorem prints_render : ∀ c ∈ (r.render ancestors t cache).calls, c.task.directive.prints := by
  rw [render]
  split
  case h_1 => exact List.forall_mem_nil _
  case h_2 ds hd =>
    refine (expands (r := r) _ _ cache).prints fun u hu => ?_
    obtain ⟨d, hm, rfl⟩ := List.mem_map.mp hu
    exact Tree.prints_of_mem_occurrences ((Tree.directives_eq_ok_iff.mp hd).right ▸ hm)

theorem raising_eq {α : Type} {x : Expansion α} (hl : Overlong.allows limit.text)
    (hx : ∀ c ∈ x.calls, c.task.directive.prints) : x.raising limit = x.result :=
  if_pos (List.all_eq_true.mpr fun c hm => prints_of_allows hl (hx c hm))

end Printing

section Rendering

variable {ancestors : List Text} {t : Tree}

theorem placed_of_fits {k : Directive.Identity} {e : Included} (h : Cache.Fits r.library k e) :
    Cache.Placed k e :=
  Library.sourceId_of_fetch (h
    { link := k.link, noFirstHeading := k.noFirstHeading, onlyContents := k.onlyContents
      level := k.level } rfl)

-- Every directive is in its place with what comes of it.
theorem render_of_legible (hc : cache.Coherent r.library)
    (hl : ∀ ancestors' u, r.Reaches ancestors t ancestors' u → Legible u.keywords) :
    (r.render ancestors t cache).result =
      .ok (t.markupWith (r.style.line (r.plainExpand ancestors))) := by
  have hb : ∀ u ∈ t.occurrences.map (Task.mk · ancestors), r.LegibleBelow u := by
    intro u hu
    obtain ⟨d, hd, rfl⟩ := List.mem_map.mp hu
    exact fun _ hs _ _ hr => hl _ _ (.inside hd hs hr)
  have hx := expandAll_eq_plainTask (n := r.levelsLeft ancestors) hc (by simp) hb
  have hw := Tree.weave_map_occurrences (hl _ _ .here) r.style (r.plainExpand ancestors) []
  rw [List.append_nil] at hw
  rw [List.map_map, show r.plainTask ∘ (Task.mk · ancestors) = r.plainExpand ancestors from rfl] at hx
  simp only [render, Tree.directives_of_legible (hl _ _ .here), hx, Except.bind, hw, Except.map]

theorem legible_of_render_ok {text : Text} (hc : cache.Coherent r.library)
    (h : (r.render ancestors t cache).result = .ok text) :
    ∀ ancestors' u, r.Reaches ancestors t ancestors' u → Legible u.keywords := by
  intro ancestors' u hr
  cases hd : t.directives
  case error => simp [render, hd] at h
  case ok ds =>
    obtain ⟨hl, rfl⟩ := Tree.directives_eq_ok_iff.mp hd
    simp only [render, hd] at h
    have hx := expands (r := r) (r.levelsLeft ancestors) (t.occurrences.map (⟨·, ancestors⟩)) cache
    cases hu : (r.expandAll (r.levelsLeft ancestors) (t.occurrences.map (⟨·, ancestors⟩)) cache).result
    case error => simp [hu, Except.bind] at h
    case ok us =>
      cases hr with
      | here            => exact hl
      | inside hd hs hr => exact hx.legibleBelow hc hu _ (List.mem_map_of_mem hd) _ hs _ _ hr

theorem localizes_render (hc : cache.Coherent r.library) :
    r.Localizes ancestors t (r.render ancestors t cache).result := by
  have hl : (∃ i, (r.render ancestors t cache).result = .error i) ↔
      ¬∀ ancestors' u, r.Reaches ancestors t ancestors' u → Legible u.keywords := by
    constructor
    case mp =>
      rintro ⟨i, hi⟩ hl
      cases hi.symm.trans (render_of_legible hc hl)
    case mpr =>
      intro hn
      cases hr : (r.render ancestors t cache).result
      case error i => exact ⟨i, rfl⟩
      case ok      => exact absurd (legible_of_render_ok hc hr) hn
  refine ⟨?_, fun i hi => ?_, fun text ht => ?_⟩
  · simp only [hl, not_forall, not_legible_iff, exists_prop]
  · exact render_ends (hc.imp fun _ _ => placed_of_fits) hi
  · have hm := ht.symm.trans (render_of_legible hc (legible_of_render_ok hc ht))
    refine ⟨r.plainExpand, Except.ok.inj hm, ?_, ?_⟩
    · exact fun _ _ _ => r.plainExpand_of_error
    · exact fun _ _ _ => r.plainExpand_of_ok

end Rendering

end Renderer

section Shelves

theorem Resolves.outcome_of_fetch {lib : Library} {limit : DepthLimit} {ancestors : List Text}
    {d : Directive} {cache : Cache} {x : Resolution} {f : Failure}
    (h : Resolves lib limit ancestors d cache x) (hr : refusal? limit ancestors d = none)
    (hc : cache.find? d.identity = none) (hf : (lib.fetch d).1 = .error f) : x.outcome = .error f := by
  cases h
  case refused hr' => cases hr.symm.trans hr'
  case hit hc'     => cases hc.symm.trans hc'
  case fetched hf' => cases (congrArg Prod.fst hf').symm.trans hf
  case failed hf' =>
    cases (congrArg Prod.fst hf').symm.trans hf
    rfl

-- Every directive whose level can be printed is answered: with the failure of the fault that it meets,
-- and without a trace of those that it does not meet. A rendering from a cache that is up to date shows
-- all that, and only an overlong level stops it.
theorem Shelf.faults_stay_local (s : Shelf) {limit : DepthLimit} (hl : Overlong.allows limit.text)
    (style : Style) :
    (∀ ancestors d cache, d.prints →
      ∃ x, tryResolve s.library limit ancestors d cache = .ok x ∧
        Resolves s.library limit ancestors d cache x ∧
        (∀ p f, s.Meets d p → s.faults.lookup p = some f → refusal? limit ancestors d = none →
          cache.find? d.identity = none → x.outcome = .error (p.failure d f)) ∧
        ∀ fs : List (Place × Fault), (∀ p, s.Meets d p → fs.lookup p = s.faults.lookup p) →
          tryResolve (s.withFaults fs).library limit ancestors d cache = .ok x) ∧
    ∀ ancestors t cache, cache.Coherent s.library →
      let r : Renderer := { library := s.library, limit, style }
      (∀ c ∈ (r.render ancestors t cache).calls, c.task.directive.prints) ∧
        r.Localizes ancestors t ((r.render ancestors t cache).raising limit) := by
  refine ⟨fun ancestors d cache hd => ?_, fun ancestors t cache hc => ⟨Renderer.prints_render, ?_⟩⟩
  · have hp : Transclusion.prints limit ancestors d := Renderer.prints_of_allows hl hd
    refine ⟨_, if_pos hp, resolves .., fun p f hm hf hr hc => ?_, fun fs h => ?_⟩
    · exact (resolves ..).outcome_of_fetch hr hc (fetch_of_fault hm hf)
    · rw [←resolve_congr (fetch_congr h)]
      exact if_pos hp
  · rw [Renderer.raising_eq hl Renderer.prints_render]
    exact Renderer.localizes_render hc

open Transclusion.Shelf (rooms) in
theorem Shelf.faults_stay_local_rooms :
    let fs : List (Place × Fault) := [(.content "attic.org".toList, .broken "torn".toList)]
    let s := rooms.withFaults fs
    let r : Renderer := { library := s.library, limit := .ofInt 16 }
    let attic : Directive := { link := { body := "attic.org".toList } }
    let hall : Directive := { link := { body := "hall.org".toList } }
    let cache : Cache := { capacity := 1 }
    (∃ x, tryResolve s.library (.ofInt 16) [] attic cache = .ok x ∧
      x.outcome = .error (.unreadable "torn".toList)) ∧
      (∃ x, tryResolve rooms.library (.ofInt 16) [] hall cache = .ok x ∧
        tryResolve s.library (.ofInt 16) [] hall cache = .ok x) ∧
      r.Localizes [] rooms.hall ((r.render [] rooms.hall cache).raising (.ofInt 16)) ∧
      (r.render [] rooms.hall cache).raising (.ofInt 16) =
        .ok "* Hall\n# transclusion failed: Parse error: torn [retry]\n".toList := by
  intro fs s r attic hall cache
  have hl : Overlong.allows (DepthLimit.ofInt 16).text := by decide
  have ⟨hd, hr⟩ := faults_stay_local s hl {}
  have ha : (s.library.follow attic).1 = .ok (source "attic.org".toList) := by decide +kernel
  have hh : (rooms.library.follow hall).1 = .ok (source "hall.org".toList) := by decide +kernel
  have ⟨x, hx, _, hm, _⟩ := hd [] attic cache rfl
  have ⟨y, hy, _, _, hu⟩ := (faults_stay_local rooms hl {}).left [] hall cache rfl
  refine ⟨⟨x, hx, hm _ (.broken "torn".toList) (.content ha) rfl rfl rfl⟩, ⟨y, hy, hu fs ?_⟩,
    (hr [] rooms.hall cache (.of_empty rfl)).right, by decide +kernel⟩
  intro p hp
  cases hp
  case beside => rfl
  case search => rfl
  case parser => rfl
  case content hs =>
    cases hs.symm.trans hh
    decide +kernel

end Shelves

section Stale

open Text

-- A document that is a single keyword.
theorem Document.keywords_of_line {l : Text} {k : Keyword} (hf : IsFlat l)
    (hl : Construct.ofLine l = .keyword k) : (Tree.whole (.ofText (unlines [l]))).keywords = [k] := by
  have hc : Construct.ofLine (l ++ ['\n']) = .keyword k := by
    rwa [Construct.ofLine_congr (bare_append_newline l)]
  have he : Entry.ofLines (completed (lines (unlines [l]))) = [.keyword k] := by
    rw [completed_unlines (List.forall_mem_singleton.mpr hf)]
    exact Mode.entries_keyword hc []
  rw [ofText, he]
  rfl

namespace Keyword

variable (n : Nat)

def nines : Text :=
  List.replicate (n + 1) '9'

-- A directive with a level of many digits.
def long : Keyword where
  key := "#+transclude:".toList
  value := some ("[[x]] :level ".toList ++ nines n)

def longLine : Text :=
  "#+transclude: [[x]] :level ".toList ++ nines n

theorem trim_nines {c : Char} (hc : isBlank c = false) (s : Text) :
    trim (c :: s ++ nines n) = c :: s ++ nines n := by
  have hl : (c :: s ++ nines n).getLast? = some '9' := by
    rw [nines, List.replicate_succ', ←List.append_assoc, List.getLast?_concat]
  refine trim_eq_self_iff.mpr ⟨fun x hx => ?_, fun x hx => ?_⟩
  · cases hx
    exact hc
  · rw [hl] at hx
    cases hx
    decide

theorem ofLine?_longLine : ofLine? (longLine n) = some (long n) := by
  have hv : valueAfterColon? (" [[x]] :level ".toList ++ nines n) =
      some ("[[x]] :level ".toList ++ nines n) :=
    congrArg some ((trim_cons_of_isBlank (by decide) _).trans (trim_nines n (by decide) _))
  have hn : takeName? ("transclude: [[x]] :level ".toList ++ nines n) =
      some ("transclude".toList, " [[x]] :level ".toList ++ nines n) := rfl
  have ha : after? "#+".toList (trimStart (longLine n)) =
      some ("transclude: [[x]] :level ".toList ++ nines n) := rfl
  simp only [ofLine?, ha, hn, hv, bind, Option.bind]
  rfl

theorem isFlat_longLine : IsFlat (longLine n) := by
  refine isFlat_append.mpr ⟨by decide, ?_⟩
  intro c hc
  rw [List.eq_of_mem_replicate hc]
  decide

theorem construct_longLine : Construct.ofLine (longLine n) = .keyword (long n) := by
  rw [Construct.ofLine_eq_keyword_iff, (isFlat_longLine n).bare_eq]
  exact ⟨not_heading_of_ne_star (c := '#') rfl (by decide), rfl, rfl, ofLine?_longLine n⟩

theorem isOverlong_long {n : Nat} (h : 4300 ≤ n) : (long n).IsOverlong := by
  have hm : lower "#+transclude:".toList = Directive.mark := by decide +kernel
  have hl : Directive.levelDigits? (" :level ".toList ++ nines n) =
      given (some ((nines n).takeWhile isDigit)) := rfl
  have hd : (nines n).takeWhile isDigit = nines n := by
    rw [nines, List.takeWhile_replicate, if_pos (by decide)]
  refine ⟨beq_iff_eq.mpr hm, "x".toList, none, " :level ".toList ++ nines n,
    ⟨none, "x".toList, none⟩, nines n, ?_, by decide +kernel, ?_, ?_⟩
  · exact congrArg Directive.brackets? (trim_nines n (by decide) _)
  · rw [Directive.levelDigits?_trim, hl, hd]
    rfl
  · rw [nines, List.length_replicate]
    omega

theorem keywords_longLine (n : Nat) :
    (Tree.whole (.ofText (unlines [longLine n]))).keywords = [long n] :=
  Document.keywords_of_line (isFlat_longLine n) (construct_longLine n)

end Keyword

theorem not_legible_longLine {n : Nat} (h : 4300 ≤ n) :
    ¬Legible (Tree.whole (.ofText (unlines [Keyword.longLine n]))).keywords :=
  not_legible_iff.mpr
    ⟨_, Keyword.keywords_longLine n ▸ List.mem_singleton_self _, Keyword.isOverlong_long h⟩

-- The cache is out of date: the document that it holds can be shown, and the one that has taken its
-- place cannot.
theorem Shelf.faults_not_local :
    let leaf : Directive := { link := { body := "./a.org".toList } }
    let t : Tree := .whole (.ofText "#+transclude: [[./a.org]]\n".toList)
    let start : Desk :=
      { shelf := { files := [("a.org".toList, "old\n".toList)] }, limit := .ofInt 5
        cache := { capacity := 50 } }
    let now := start.after [.resolve [] leaf, .write "a.org".toList (unlines [Keyword.longLine 4300])]
    (∃ ancestors u, (now.renderer {}).Reaches [] t ancestors u ∧ ∃ k ∈ u.keywords, k.IsOverlong) ∧
      (now.step (.render [] {} t)).answer = .text (.ok "old\n".toList) := by
  intro leaf t start now
  let long : Document := .ofText (unlines [Keyword.longLine 4300])
  have hf : (now.shelf.library.fetch leaf).1 =
      .ok
        { content := .whole long
          sourceId := leaf.sourceId
          source := some (source "a.org".toList)
          target := none } := rfl
  have hr : (now.renderer {}).Reaches [] t [leaf.sourceId] (.whole long) :=
    .inside (by decide +kernel) (fresh_eq_ok_iff (s := ⟨_, leaf.sourceName⟩).mpr ⟨rfl, hf, rfl⟩) .here
  have ho : ((now.renderer {}).render [] t now.cache).raising now.limit = .ok "old\n".toList := by
    decide +kernel
  exact ⟨⟨_, _, hr, not_legible_iff.mp (not_legible_longLine (Nat.le_refl _))⟩, congrArg _ ho⟩

end Stale

end Transclusion
