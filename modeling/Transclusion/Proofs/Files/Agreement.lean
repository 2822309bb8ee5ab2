import Mathlib.Data.Char
import Mathlib.Data.List.Lex
import Mathlib.Data.List.Nodup
import Transclusion.Files.Library
import Transclusion.Proofs.Files.Names
import Transclusion.Proofs.Shelf.Changes

namespace Transclusion

open Text

namespace FileTree

-- No place has two nodes, and each lies in a directory.
structure WellFormed (t : FileTree) : Prop where
  nodup : (t.nodes.map (·.1)).Nodup
  below_top : ∀ x ∈ t.nodes, x.1.parts ≠ []
  named : ∀ x ∈ t.nodes, x.1.IsNamed
  above : ∀ x ∈ t.nodes, t.node? x.1.parent = some .directory

instance (t : FileTree) : Decidable t.WellFormed :=
  decidable_of_iff ((t.nodes.map (·.1)).Nodup ∧
      ∀ x ∈ t.nodes, x.1.parts ≠ [] ∧ x.1.IsNamed ∧ t.node? x.1.parent = some .directory)
    ⟨fun ⟨hd, hn⟩ => ⟨hd, fun x hx => (hn x hx).left, fun x hx => (hn x hx).right.left,
        fun x hx => (hn x hx).right.right⟩,
      fun h => ⟨h.nodup, fun x hx => ⟨h.below_top x hx, h.named x hx, h.above x hx⟩⟩⟩

-- The trees have the same nodes on the way to the place, and there.
def AgreesAlong (t t' : FileTree) (l : Location) : Prop :=
  ∀ k : Location, k.parts <+: l.parts → t.node? k = t'.node? k

-- The trees have the same file at the place, or neither has one there. Where a name is too long it is the
-- directories above that tell whether looking for it fails.
structure AgreesAt (t t' : FileTree) (l : Location) : Prop where
  file : ∀ bytes, t.node? l = some (.file bytes) ↔ t'.node? l = some (.file bytes)
  overlong : ∀ p ∈ l.parts, nameLimit < octets p → t.AgreesAlong t' l

variable {t t' : FileTree} {k l top : Location} {ps : List Text} {bytes : List UInt8} {cwd : Location}

section Paths

theorem statFrom_congr (hd : "..".toList ∉ ps)
    (h : ∀ qs, qs <+: ps → t.node? ⟨l.parts ++ qs⟩ = t'.node? ⟨l.parts ++ qs⟩) (n : Node) :
    t.statFrom l n ps = t'.statFrom l n ps := by
  induction ps generalizing l n
  case nil => rfl
  case cons p ps hi =>
    have ⟨hp, hs⟩ := not_or.mp (mt List.mem_cons.mpr hd)
    cases n
    case file => rfl
    case directory =>
      have hc : t.node? (l.child p) = t'.node? (l.child p) := h [p] ⟨ps, rfl⟩
      have hi (n : Node) : t.statFrom (l.child p) n ps = t'.statFrom (l.child p) n ps := by
        refine hi hs (fun qs hq => ?_) n
        simpa [Location.child] using h (p :: qs) (List.cons_prefix_cons.mpr ⟨rfl, hq⟩)
      simp only [statFrom, Location.follow, if_neg (Ne.symm hp), hc]
      cases t'.node? (l.child p)
      case none   => rfl
      case some n => simp only [hi]

-- What is found is at the end of the way.
theorem statFrom_eq_found {m : Location} {n k : Node} (hd : "..".toList ∉ ps)
    (h : t.statFrom l n ps = .found m k) (hn : t.node? l = some n) :
    m = ⟨l.parts ++ ps⟩ ∧ t.node? m = some k := by
  induction ps generalizing l n
  case nil =>
    cases h
    exact ⟨by simp, hn⟩
  case cons p ps hi =>
    have ⟨hp, hs⟩ := not_or.mp (mt List.mem_cons.mpr hd)
    cases n
    case file => cases h
    case directory =>
      simp only [statFrom, Location.follow, if_neg (Ne.symm hp)] at h
      split at h
      case isTrue => cases h
      case isFalse =>
        cases hc : t.node? (l.child p) <;> rw [hc] at h
        case none   => cases h
        case some n => simpa [Location.child] using hi hs h hc

theorem stat_eq_found {cwd m : Location} {n : Node} (hd : "..".toList ∉ l.parts)
    (h : t.stat cwd l.path = .found m n) : t.node? l = some n := by
  rw [stat] at h
  split at h
  case isTrue => cases h
  case isFalse =>
    split at h
    case isTrue => cases h
    case isFalse =>
      have h : t.statFrom {} .directory l.parts = .found m n := h
      obtain ⟨rfl, hn⟩ := statFrom_eq_found hd h rfl
      exact hn

-- What can be read is a file there.
theorem node?_of_content {cwd : Location} {s : Text} (hd : "..".toList ∉ l.parts)
    (h : t.content cwd l.path = .ok s) : ∃ bytes, t.node? l = some (.file bytes) := by
  rw [content] at h
  cases hb : t.bytes cwd l.path <;> rw [hb] at h
  case error => cases h
  case ok =>
    rw [bytes] at hb
    split at hb <;> cases hb
    case h_1 hs => exact ⟨_, stat_eq_found hd hs⟩

theorem node?_of_isFile (hd : "..".toList ∉ l.parts) (h : t.isFile cwd l.path = .ok true) :
    ∃ bytes, t.node? l = some (.file bytes) := by
  rw [isFile, lookUp] at h
  cases hs : t.stat cwd l.path <;> rw [hs] at h
  case found m n =>
    cases n
    case file      => exact ⟨_, stat_eq_found hd hs⟩
    case directory => cases h
  all_goals cases h

theorem statFrom_ne_nameTooLong {n : Node} (hs : ∀ p ∈ ps, ¬nameLimit < octets p) :
    t.statFrom l n ps ≠ .nameTooLong := by
  induction ps generalizing l n
  case nil => nofun
  case cons p ps hi =>
    have ⟨hp, hs⟩ := List.forall_mem_cons.mp hs
    cases n
    case file      => nofun
    case directory =>
      rw [statFrom, if_neg hp]
      dsimp only
      split
      case h_1 => nofun
      case h_2 => exact hi hs

-- There is no file, and it can be told from the place alone whether that is seen.
theorem isFile_of_not_file (hd : "..".toList ∉ l.parts) (hs : ∀ p ∈ l.parts, ¬nameLimit < octets p)
    (h : ∀ bytes, t.node? l ≠ some (.file bytes)) :
    t.isFile cwd l.path =
      if pathLimit < octets l.path.text then .error (.nameTooLong l.path.text) else .ok false := by
  rw [isFile, lookUp]
  by_cases hp : pathLimit < octets l.path.text
  case pos =>
    rw [stat, if_pos hp, if_pos hp]
    rfl
  case neg =>
    rw [if_neg hp]
    cases hf : t.stat cwd l.path
    case found m n =>
      cases n
      case file      => exact absurd (stat_eq_found hd hf) (h _)
      case directory => rfl
    case nameTooLong =>
      rw [stat, if_neg hp] at hf
      split at hf
      case isTrue  => cases hf
      case isFalse => exact absurd hf (statFrom_ne_nameTooLong hs)
    all_goals rfl

end Paths

section Agreement

theorem AgreesAlong.above (h : t.AgreesAlong t' l) (hk : k.parts <+: l.parts) : t.AgreesAlong t' k :=
  fun m hm => h m (hm.trans hk)

theorem AgreesAlong.stat_eq (h : t.AgreesAlong t' l) (hd : "..".toList ∉ l.parts) (cwd : Location) :
    t.stat cwd l.path = t'.stat cwd l.path := by
  have hs : t.statFrom {} .directory l.path.parts = t'.statFrom {} .directory l.path.parts :=
    statFrom_congr hd (fun qs hq => h ⟨qs⟩ hq) .directory
  have hr : l.path.isRelative = false := rfl
  simp only [stat, hr, Bool.false_eq_true, if_false, hs]

theorem AgreesAlong.lookUp_eq (h : t.AgreesAlong t' l) (hd : "..".toList ∉ l.parts) (cwd : Location) :
    t.lookUp cwd l.path = t'.lookUp cwd l.path := by
  rw [lookUp, lookUp, h.stat_eq hd]

theorem AgreesAlong.content_eq (h : t.AgreesAlong t' l) (hd : "..".toList ∉ l.parts) (cwd : Location) :
    t.content cwd l.path = t'.content cwd l.path := by
  simp only [content, bytes, h.stat_eq hd]

theorem AgreesAlong.agreesAt (h : t.AgreesAlong t' l) : t.AgreesAt t' l where
  file _ := by rw [h l List.prefix_rfl]
  overlong _ _ _ := h

theorem agreesAlong_add (h : ¬k.parts <+: l.parts) (n : Node) : t.AgreesAlong (t.add k n) l := by
  intro m hm
  have hk : m ≠ k := by
    rintro rfl
    exact h hm
  have hl : (t.add k n).nodes.lookup m = t.nodes.lookup m := Shelf.lookup_set hk n t.nodes
  rw [node?, node?, hl]

-- Neither is `k` below `top`, nor `top` below `k`.
theorem agreesAlong_add_of_apart (hk : ¬top.parts <+: k.parts) (ht : ¬k.parts <+: top.parts)
    (hl : top.parts <+: l.parts) (n : Node) : t.AgreesAlong (t.add k n) l :=
  agreesAlong_add (fun h => (List.prefix_or_prefix_of_prefix h hl).elim ht hk) n

theorem mem_nodes {n : Node} (hn : t.node? l = some n) (hl : l.parts ≠ []) : (l, n) ∈ t.nodes := by
  rw [node?, if_neg (by simpa using hl)] at hn
  have ⟨_, _, he, _⟩ := List.lookup_eq_some_iff.mp hn
  simp [he]

namespace WellFormed

theorem node?_of_below (h : t.WellFormed) {n : Node} (hp : ps ≠ [])
    (hn : t.node? ⟨l.parts ++ ps⟩ = some n) : t.node? l = some .directory := by
  induction ps using List.reverseRecOn generalizing n
  case nil => exact absurd rfl hp
  case append_singleton ps p hi =>
    have ha := h.above _ (mem_nodes hn (by simp))
    rw [Location.parent, ←List.append_assoc, List.dropLast_concat] at ha
    cases ps
    case nil  => simpa using ha
    case cons => exact hi nofun ha

-- The way to a file goes through directories only.
theorem agreesAlong (ht : t.WellFormed) (ht' : t'.WellFormed) (hn : t.node? l = some (.file bytes))
    (hn' : t'.node? l = some (.file bytes)) : t.AgreesAlong t' l := by
  rintro ⟨ks⟩ ⟨ps, hl⟩
  obtain ⟨ls⟩ := l
  cases hl
  by_cases hp : ps = []
  case pos => simpa [hp] using hn.trans hn'.symm
  case neg => rw [ht.node?_of_below hp hn, ht'.node?_of_below hp hn']

end WellFormed

namespace AgreesAt

theorem along (h : t.AgreesAt t' l) (ht : t.WellFormed) (ht' : t'.WellFormed)
    (hf : ∃ bytes, t.node? l = some (.file bytes)) : t.AgreesAlong t' l := by
  obtain ⟨bytes, hn⟩ := hf
  exact ht.agreesAlong ht' hn ((h.file bytes).mp hn)

theorem isFile_eq (h : t.AgreesAt t' l) (ht : t.WellFormed) (ht' : t'.WellFormed)
    (hd : "..".toList ∉ l.parts) (cwd : Location) : t.isFile cwd l.path = t'.isFile cwd l.path := by
  by_cases ho : ∃ p ∈ l.parts, nameLimit < octets p
  case pos =>
    obtain ⟨p, hp, ho⟩ := ho
    rw [isFile, isFile, (h.overlong p hp ho).lookUp_eq hd]
  case neg =>
    have hs : ∀ p ∈ l.parts, ¬nameLimit < octets p := by simpa using ho
    by_cases hf : ∃ bytes, t.node? l = some (.file bytes)
    case pos => rw [isFile, isFile, (h.along ht ht' hf).lookUp_eq hd]
    case neg =>
      have hf : ∀ bytes, t.node? l ≠ some (.file bytes) := not_exists.mp hf
      have hf' : ∀ bytes, t'.node? l ≠ some (.file bytes) := fun b => mt (h.file b).mpr (hf b)
      rw [isFile_of_not_file hd hs hf, isFile_of_not_file hd hs hf']

end AgreesAt

end Agreement

section Below

-- A file is found under the parts that lead to it.
theorem below_eq_some_iff {x : Location × Node} :
    (match x with
      | (l, n) =>
        match n with
        | .file bytes => if l.isUnder top then some (l.parts.drop top.parts.length, bytes) else none
        | .directory => none) = some (ps, bytes) ↔ x = (⟨top.parts ++ ps⟩, .file bytes) := by
  obtain ⟨l, n⟩ := x
  cases n
  case directory => simp
  case file =>
    by_cases hu : l.isUnder top
    case neg =>
      have hl : l ≠ ⟨top.parts ++ ps⟩ := by
        rintro rfl
        exact hu (Location.isUnder_iff.mpr ⟨ps, rfl⟩)
      simp [hu, hl]
    case pos =>
      obtain ⟨rest, hr⟩ := Location.isUnder_iff.mp hu
      obtain ⟨parts⟩ := l
      cases hr
      simp [Location.isUnder]

theorem mem_filesBelow_iff_mem :
    (ps, bytes) ∈ t.filesBelow top ↔ (⟨top.parts ++ ps⟩, .file bytes) ∈ t.nodes := by
  rw [filesBelow, List.mem_filterMap]
  exact (exists_congr fun _ => and_congr_right fun _ => below_eq_some_iff).trans (by simp)

namespace WellFormed

theorem node?_eq_file_iff (h : t.WellFormed) :
    t.node? l = some (.file bytes) ↔ (l, .file bytes) ∈ t.nodes := by
  constructor
  case mp =>
    intro hn
    refine mem_nodes hn fun hl => ?_
    simp [node?, hl] at hn
  case mpr =>
    intro hm
    rw [node?, if_neg (by simpa using h.below_top _ hm)]
    cases hl : t.nodes.lookup l
    case none => simpa using List.lookup_eq_none_iff.mp hl _ hm
    case some n =>
      have ⟨_, _, he, _⟩ := List.lookup_eq_some_iff.mp hl
      have hn : (l, n) ∈ t.nodes := by simp [he]
      cases List.inj_on_of_nodup_map h.nodup hn hm rfl
      rfl

theorem mem_filesBelow_iff (h : t.WellFormed) :
    (ps, bytes) ∈ t.filesBelow top ↔ t.node? ⟨top.parts ++ ps⟩ = some (.file bytes) := by
  rw [h.node?_eq_file_iff, mem_filesBelow_iff_mem]

theorem nodup_filesBelow (h : t.WellFormed) (top : Location) : (t.filesBelow top).Nodup := by
  refine (List.Nodup.of_map _ h.nodup).filterMap fun x x' y hx hx' => ?_
  obtain ⟨ps, bytes⟩ := y
  exact (below_eq_some_iff.mp hx).trans (below_eq_some_iff.mp hx').symm

end WellFormed

theorem filesBelow_perm (ht : t.WellFormed) (ht' : t'.WellFormed)
    (h : ∀ l : Location, top.parts <+: l.parts → t.AgreesAt t' l) :
    (t.filesBelow top).Perm (t'.filesBelow top) := by
  refine (List.perm_ext_iff_of_nodup (ht.nodup_filesBelow top) (ht'.nodup_filesBelow top)).mpr ?_
  rintro ⟨ps, bytes⟩
  rw [ht.mem_filesBelow_iff, ht'.mem_filesBelow_iff, (h _ (List.prefix_append ..)).file]

end Below

end FileTree

namespace Workspace

variable {w : Workspace} {tree : FileTree} {top : Location} {g : Glob} {glob : Except Fault Glob}
variable {root p : Path} {parts : List Text} {bytes : List UInt8} {id : Text}

section Searched

theorem mem_searched_iff : (parts, bytes) ∈ w.searched top g ↔
    (⟨top.parts ++ parts⟩, .file bytes) ∈ w.tree.nodes ∧ g.fits parts ∧ ∀ p ∈ parts, p.head? ≠ some '.' := by
  simp [searched, isHidden, FileTree.mem_filesBelow_iff_mem]

theorem findId_eq_some_iff : w.findId root glob id = .ok (some p) ↔ w.isDirectory root = .ok true ∧
    ∃ g parts bytes, glob = .ok g ∧ { root with parts := root.parts ++ parts } = p ∧
      (w.searched (w.cwd.walk root) g).find? (fun (_, bytes) => holdsId id bytes) = some (parts, bytes) := by
  rw [findId]
  rcases hd : w.isDirectory root with _ | _ | _ <;> cases glob <;> simp [bind, Except.bind, and_comm]

end Searched

section Order

theorem isBefore_iff {s t : Text} : isBefore s t ↔ s < t := by
  have hc : (fun a b : Char => decide (a.toNat < b.toNat) = true) = (· < ·) := by
    funext a b
    rw [decide_eq_true_eq, Char.lt_def, UInt32.lt_iff_toNat_lt]
    rfl
  rw [isBefore, List.lex_eq_true_iff_lex, hc]
  rfl

-- Files are searched in the order of their paths.
theorem lex_isBefore_iff {ps qs : List Text} : ps.lex qs isBefore ↔ ps < qs := by
  have hb : (fun s t : Text => isBefore s t = true) = (· < ·) := by
    funext s t
    rw [isBefore_iff]
  rw [List.lex_eq_true_iff_lex, hb]
  rfl

theorem pairwise_searched (w : Workspace) (top : Location) (g : Glob) :
    (w.searched top g).Pairwise fun a b => a.1 ≤ b.1 := by
  have hl {a b : List Text × List UInt8} : (!b.1.lex a.1 isBefore) = true ↔ a.1 ≤ b.1 := by
    rw [Bool.not_eq_true', Bool.eq_false_iff, ne_eq, lex_isBefore_iff, not_lt]
  refine (List.pairwise_mergeSort ?_ ?_ _).imp hl.mp
  · simp only [hl]
    exact fun _ _ _ => le_trans
  · simp only [Bool.or_eq_true, hl]
    exact fun a b => le_total a.1 b.1

end Order

theorem searched_eq (hw : w.tree.WellFormed) (ht : tree.WellFormed)
    (h : ∀ l : Location, top.parts <+: l.parts → w.tree.AgreesAt tree l) :
    w.searched top g = { w with tree }.searched top g := by
  have hp := (FileTree.filesBelow_perm hw ht h).filter fun f => g.fits f.1 && !isHidden f.1
  refine List.Perm.eq_of_pairwise ?_ (pairwise_searched ..) (pairwise_searched ..) ?_
  · rintro ⟨ps, bytes⟩ ⟨qs, bytes'⟩ ha hb hle hge
    cases le_antisymm hle hge
    have ha := (hp.mem_iff.mp (List.mem_mergeSort.mp ha))
    have ha := ht.mem_filesBelow_iff.mp (List.mem_filter.mp ha).left
    have hb := ht.mem_filesBelow_iff.mp (List.mem_filter.mp (List.mem_mergeSort.mp hb)).left
    cases ha.symm.trans hb
    rfl
  · exact (List.mergeSort_perm ..).trans (hp.trans (List.mergeSort_perm ..).symm)

end Workspace

end Transclusion
