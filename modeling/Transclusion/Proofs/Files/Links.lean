import Transclusion.Proofs.Expansion.Libraries
import Transclusion.Proofs.Files.Agreement

namespace Transclusion

open Text

namespace Workspace

structure WellFormed (w : Workspace) : Prop where
  tree : w.tree.WellFormed
  cwd : w.cwd.IsNamed
  home : w.home.IsNamed
  homes : ∀ x ∈ w.homes, x.2.IsNamed

instance (w : Workspace) : Decidable w.WellFormed :=
  decidable_of_iff (w.tree.WellFormed ∧ w.cwd.IsNamed ∧ w.home.IsNamed ∧ ∀ x ∈ w.homes, x.2.IsNamed)
    ⟨fun ⟨ht, hc, hh, hs⟩ => ⟨ht, hc, hh, hs⟩, fun h => ⟨h.tree, h.cwd, h.home, h.homes⟩⟩

-- The place that a relative link of a document leads to, whatever is there.
def placeBeside (w : Workspace) (main : Location) (path : Text) : Except Fault Location := do
  let p ← w.expandHome (Path.ofText path)
  w.locate (main.parent.path.join p)

variable {w : Workspace} {tree : FileTree} {main top l : Location} {glob : Except Fault Glob}
  {path id : Text} {p : Path} {s : Source} {d : Directive} {t : Tree}

section Places

theorem expandHome_named {q : Path} (hw : w.WellFormed) (hp : p.IsNamed)
    (h : w.expandHome p = .ok q) : q.IsNamed := by
  rw [expandHome] at h
  split at h
  case h_2 =>
    cases h
    exact hp
  case h_1 name parts _ hps =>
    have hs : ∀ s ∈ parts, IsPart s := fun s hs => hp s (hps ▸ List.mem_cons_of_mem _ hs)
    split at h <;> cases h
    case h_1 home hh =>
      have hn : home.IsNamed := by
        split at hh
        case isTrue =>
          cases hh
          exact hw.home
        case isFalse =>
          have ⟨_, _, he, _⟩ := List.lookup_eq_some_iff.mp hh
          exact hw.homes (name, home) (by simp [he])
      exact fun s hm => (List.mem_append.mp hm).elim (hn.names s) (hs s)

theorem locate_eq_ok (h : w.locate p = .ok l) : w.cwd.walk p = l := by
  rw [locate] at h
  split at h <;> cases h
  rfl

theorem locate_path (hl : l.IsNamed) {m : Location} (h : w.locate l.path = .ok m) : m = l :=
  (locate_eq_ok h).symm.trans (Location.walk_path hl.no_dots w.cwd)

theorem placeBeside_named (hw : w.WellFormed) (hm : main.IsNamed)
    (h : w.placeBeside main path = .ok l) : l.IsNamed := by
  rw [placeBeside] at h
  cases hp : w.expandHome (Path.ofText path) <;> rw [hp] at h
  case error => cases h
  case ok p =>
    have hj := hm.parent.path.join (expandHome_named hw (Path.isNamed_ofText path) hp)
    exact locate_eq_ok h ▸ hw.cwd.walk hj

theorem beside_eq_bind (w : Workspace) (main : Location) (path : Text) :
    w.beside main path = (w.placeBeside main path).bind fun l => (w.isFile l.path).bind fun isFile =>
      if isFile then .ok l.source else .error (.missing ("No such file: ".toList ++ l.text)) := by
  simp only [beside, placeBeside, bind, Except.bind]
  cases w.expandHome (Path.ofText path) <;> rfl

theorem beside_eq_ok (h : w.beside main path = .ok s) :
    ∃ l, w.placeBeside main path = .ok l ∧ s = l.source ∧ w.isFile l.path = .ok true := by
  rw [beside_eq_bind] at h
  cases hl : w.placeBeside main path <;> rw [hl] at h
  case error => cases h
  case ok l =>
    refine ⟨l, rfl, ?_⟩
    rcases hf : w.isFile l.path with _ | _ | _ <;> simp only [Except.bind, hf] at h <;> cases h
    exact ⟨rfl, rfl⟩

end Places

section Searching

theorem findId_eq_ok (hw : w.tree.WellFormed) (ht : top.IsNamed)
    (h : w.findId top.path glob id = .ok (some p)) :
    ∃ l : Location, p = l.path ∧ top.parts <+: l.parts ∧ l.IsNamed ∧
      ∃ bytes, w.tree.node? l = some (.file bytes) := by
  obtain ⟨_, g, ps, bytes, _, rfl, hf⟩ := findId_eq_some_iff.mp h
  have hm := (mem_searched_iff.mp (List.mem_of_find?_eq_some hf)).left
  rw [Location.walk_path ht.no_dots] at hm
  exact ⟨⟨top.parts ++ ps⟩, rfl, List.prefix_append .., hw.named _ hm, bytes, hw.node?_eq_file_iff.mpr hm⟩

-- What is found below the directory is a file at its own place.
theorem search_eq_ok (hw : w.tree.WellFormed) (ht : top.IsNamed)
    (h : w.search glob top.text id = .ok (some s)) :
    ∃ l : Location, s = l.source ∧ top.parts <+: l.parts ∧ l.IsNamed ∧
      ∃ bytes, w.tree.node? l = some (.file bytes) := by
  rw [search, Location.ofText_text ht] at h
  rcases hf : w.findId top.path glob id with _ | _ | p <;>
    simp only [hf, bind, Except.bind, Except.ok.injEq, reduceCtorEq] at h
  case ok.some =>
    obtain ⟨l, rfl, hu, hn, hb⟩ := findId_eq_ok hw ht hf
    have hr : w.resolve l.path = w.locate l.path := rfl
    rw [hr] at h
    rcases hp : w.locate l.path with _ | m <;>
      simp only [hp, Except.ok.injEq, Option.some.injEq, reduceCtorEq] at h
    cases locate_path hn hp
    exact ⟨_, h.symm, hu, hn, hb⟩

end Searching

-- All that the library of `main` looks at for a directive is the same in both trees.
structure Shares (w : Workspace) (tree : FileTree) (main top : Location) (d : Directive) : Prop where
  along : w.tree.AgreesAlong tree top
  below : ∀ l : Location, top.parts <+: l.parts → w.tree.AgreesAt tree l
  beside : ∀ l, d.link.isRelative → w.placeBeside main d.link.body = .ok l → w.tree.AgreesAt tree l

section Libraries

theorem beside_congr (hw : w.WellFormed) (ht : tree.WellFormed) (hm : main.IsNamed)
    (h : ∀ l, w.placeBeside main path = .ok l → w.tree.AgreesAt tree l) :
    w.beside main path = { w with tree }.beside main path := by
  have hp : ({ w with tree } : Workspace).placeBeside main path = w.placeBeside main path := rfl
  rw [beside_eq_bind, beside_eq_bind, hp]
  cases hl : w.placeBeside main path
  case error => rfl
  case ok l =>
    have hf : w.isFile l.path = { w with tree }.isFile l.path :=
      (h l hl).isFile_eq hw.tree ht (placeBeside_named hw hm hl).no_dots w.cwd
    simp only [Except.bind, hf]

theorem search_congr (hw : w.tree.WellFormed) (ht : tree.WellFormed) (hn : top.IsNamed)
    (ha : w.tree.AgreesAlong tree top)
    (h : ∀ l : Location, top.parts <+: l.parts → w.tree.AgreesAt tree l) :
    w.search glob top.text id = { w with tree }.search glob top.text id := by
  have hr : w.cwd.walk top.path = top := Location.walk_path hn.no_dots w.cwd
  have hi : w.isDirectory top.path = { w with tree }.isDirectory top.path := by
    simp only [isDirectory, FileTree.isDirectory, ha.lookUp_eq hn.no_dots]
  have hf (g : Glob) : w.searched top g = { w with tree }.searched top g := searched_eq hw ht h
  have he : w.findId top.path glob id = { w with tree }.findId top.path glob id := by
    simp only [findId, hi, hr, hf]
  rw [search, search, Location.ofText_text hn, he]
  rfl

-- The document that a directive leads to is a file in both trees.
theorem follow_eq_ok (hw : w.WellFormed) (ht : tree.WellFormed) (hm : main.IsNamed) (hn : top.IsNamed)
    (hs : w.Shares tree main top d) (h : ((w.library main top glob).follow d).1 = .ok s) :
    ∃ l : Location, s = l.source ∧ l.IsNamed ∧ w.tree.AgreesAlong tree l := by
  rw [Library.follow] at h
  by_cases hi : d.link.scheme = some "id:".toList
  case pos =>
    simp only [library, if_pos hi] at h
    rcases hf : w.search glob top.text d.link.body with _ | _ | s <;>
      simp only [hf, reduceCtorEq, Except.ok.injEq] at h
    obtain ⟨l, rfl, hu, hl, hb⟩ := search_eq_ok hw.tree hn hf
    exact ⟨l, h.symm, hl, (hs.below l hu).along hw.tree ht hb⟩
  case neg =>
    rw [if_neg hi] at h
    cases hr : d.link.isRelative
    case false => simp [hr] at h
    case true =>
      simp only [hr, if_true, library] at h
      obtain ⟨l, hl, rfl, hf⟩ := beside_eq_ok (mapError_eq_ok_iff.mp h)
      have hl' := placeBeside_named hw hm hl
      have hb := FileTree.node?_of_isFile hl'.no_dots hf
      exact ⟨l, rfl, hl', (hs.beside l hr hl).along hw.tree ht hb⟩

theorem follow_congr (hw : w.WellFormed) (ht : tree.WellFormed) (hm : main.IsNamed)
    (hn : top.IsNamed) (hs : w.Shares tree main top d) :
    (w.library main top glob).follow d = ({ w with tree }.library main top glob).follow d := by
  have hi : w.search glob top.text d.link.body = { w with tree }.search glob top.text d.link.body :=
    search_congr hw.tree ht hn hs.along hs.below
  cases hr : d.link.isRelative
  case false => simp [Library.follow, library, hr, hi]
  case true =>
    have hb := beside_congr hw ht hm (hs.beside · hr)
    simp [Library.follow, library, hr, hi, hb]

theorem fetch_library_congr (hw : w.WellFormed) (ht : tree.WellFormed) (hm : main.IsNamed)
    (hn : top.IsNamed) (hs : w.Shares tree main top d) :
    (w.library main top glob).fetch d = ({ w with tree }.library main top glob).fetch d := by
  rw [Library.fetch, Library.fetch, ←follow_congr hw ht hm hn hs]
  rcases hr : (w.library main top glob).follow d with ⟨_ | s, log⟩
  case error => rfl
  case ok =>
    obtain ⟨l, rfl, hl, ha⟩ := follow_eq_ok hw ht hm hn hs (congrArg Prod.fst hr)
    have hc : w.content (Path.ofText l.source.id) =
        ({ w with tree } : Workspace).content (Path.ofText l.source.id) := by
      rw [show l.source.id = l.text from rfl, Location.ofText_text hl]
      exact ha.content_eq hl.no_dots w.cwd
    have hd : (w.library main top glob).document l.source =
        (({ w with tree } : Workspace).library main top glob).document l.source := by
      simp only [Library.document, library, hc]
    simp only [hd]

end Libraries

end Workspace

end Transclusion
