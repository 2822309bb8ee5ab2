import Transclusion.Files.Library
import Transclusion.Proofs.Files.Agreement
import Transclusion.Proofs.Files.IdLines

namespace Transclusion

open Text

namespace Workspace

-- A file that the search comes to. Its parts lead there from `root`, and its text can be read.
structure Searches (w : Workspace) (root : Path) (g : Glob) (parts : List Text) (t : Text) : Prop where
  directory : w.isDirectory root = .ok true
  file : ∃ bytes s, (⟨(w.cwd.walk root).parts ++ parts⟩, .file bytes) ∈ w.tree.nodes ∧
    Utf8.decode bytes = .ok s ∧ unixLines s = t
  fits : g.fits parts
  visible : ∀ p ∈ parts, p.head? ≠ some '.'

-- The file is the first one with an id line for the id.
structure Finds (w : Workspace) (root : Path) (g : Glob) (id : Text) (parts : List Text) (t : Text) : Prop where
  searches : w.Searches root g parts t
  id_mem : id ∈ IdLine.ids t
  first : ∀ ps u, w.Searches root g ps u → id ∈ IdLine.ids u → parts ≤ ps

variable {w : Workspace} {root p : Path} {g : Glob} {glob : Except Fault Glob}
variable {parts : List Text} {bytes : List UInt8} {t id : Text}

theorem holdsId_iff : holdsId id bytes ↔ ∃ s, Utf8.decode bytes = .ok s ∧ id ∈ IdLine.ids (unixLines s) := by
  rw [holdsId]
  cases Utf8.decode bytes <;> simp

-- The files of the search with an id line for the id, as its list has them.
theorem exists_searches_iff (hd : w.isDirectory root = .ok true) :
    (∃ t, w.Searches root g parts t ∧ id ∈ IdLine.ids t) ↔
      ∃ bytes, (parts, bytes) ∈ w.searched (w.cwd.walk root) g ∧ holdsId id bytes := by
  simp only [mem_searched_iff, holdsId_iff]
  constructor
  case mp =>
    rintro ⟨_, ⟨_, ⟨bytes, s, hf, hs, rfl⟩, hg, hv⟩, hi⟩
    exact ⟨bytes, ⟨hf, hg, hv⟩, s, hs, hi⟩
  case mpr =>
    rintro ⟨bytes, ⟨hf, hg, hv⟩, s, hs, hi⟩
    exact ⟨unixLines s, ⟨hd, ⟨bytes, s, hf, hs, rfl⟩, hg, hv⟩, hi⟩

-- Of what is listed in path order, the first that holds comes before the others that do.
theorem le_of_find?_eq_some {α β : Type} [Preorder α] {l : List (α × β)} {f : α × β → Bool} {a b : α × β}
    (hs : l.Pairwise fun a b => a.1 ≤ b.1) (h : l.find? f = some a) (hm : b ∈ l) (hb : f b) : a.1 ≤ b.1 := by
  obtain ⟨_, above, below, rfl, hn⟩ := List.find?_eq_some_iff_append.mp h
  rcases List.mem_append.mp hm with hm | hm
  case inl => cases hb.symm.trans (Bool.not_eq_true' _ ▸ hn b hm)
  case inr =>
    rcases List.mem_cons.mp hm with rfl | hm
    · exact le_rfl
    · exact List.rel_of_pairwise_cons (List.pairwise_append.mp hs).right.left hm

theorem exists_finds (h : w.findId root glob id = .ok (some p)) :
    ∃ g parts t, glob = .ok g ∧ p = { root with parts := root.parts ++ parts } ∧ w.Finds root g id parts t := by
  obtain ⟨hd, g, parts, bytes, rfl, rfl, hf⟩ := findId_eq_some_iff.mp h
  have hm := List.mem_of_find?_eq_some hf
  have hb := List.find?_some hf
  obtain ⟨t, hs, hi⟩ := (exists_searches_iff hd).mpr ⟨bytes, hm, hb⟩
  refine ⟨g, parts, t, rfl, rfl, hs, hi, fun ps u hu hiu => ?_⟩
  obtain ⟨_, hm, hb⟩ := (exists_searches_iff hd).mp ⟨u, hu, hiu⟩
  exact le_of_find?_eq_some (pairwise_searched ..) hf hm hb

theorem Searches.exists_finds (h : w.Searches root g parts t) (hi : id ∈ IdLine.ids t) : ∃ ps u,
    w.Finds root g id ps u ∧ w.findId root (.ok g) id = .ok (some { root with parts := root.parts ++ ps }) := by
  obtain ⟨bytes, hm, hb⟩ := (exists_searches_iff h.directory).mp ⟨t, h, hi⟩
  have hs := (List.find?_isSome (p := fun file => holdsId id file.2)).mpr ⟨_, hm, hb⟩
  obtain ⟨⟨ps, bytes⟩, hf⟩ := Option.isSome_iff_exists.mp hs
  have he := findId_eq_some_iff.mpr ⟨h.directory, g, ps, bytes, rfl, rfl, hf⟩
  obtain ⟨_, qs, u, hg, hp, hu⟩ := Workspace.exists_finds he
  cases hg
  cases List.append_cancel_left (congrArg Path.parts hp)
  exact ⟨ps, u, hu, he⟩

-- A listing with an id line, and an outline with an id.
def loft : Workspace where
  cwd := ⟨["w".toList]⟩
  tree :=
    { nodes :=
        [(⟨["w".toList]⟩, .directory),
          (⟨["w".toList, "a.org".toList]⟩, .file "#+begin_src org\n:ID: j\n#+end_src\n".toUTF8.toList),
          (⟨["w".toList, "b.org".toList]⟩, .file "* B\n:PROPERTIES:\n:ID: k\n:END:\n".toUTF8.toList)] }

namespace loft

def room : Path :=
  ⟨.slash, ["w".toList]⟩

def orgFiles : Glob where
  parts := [.wild [.many, .one '.', .one 'o', .one 'r', .one 'g']]
  onlyDirectories := false

def listing : Text :=
  "#+begin_src org\n:ID: j\n#+end_src\n".toList

def outline : Text :=
  "* B\n:PROPERTIES:\n:ID: k\n:END:\n".toList

def headed : Section where
  headline := ⟨1, none, none, some "B".toList, []⟩
  content := some [.drawer ⟨[("ID".toList, "k".toList)]⟩]

theorem searches_outline : loft.Searches room orgFiles ["b.org".toList] outline where
  directory := by decide +kernel
  file := ⟨"* B\n:PROPERTIES:\n:ID: k\n:END:\n".toUTF8.toList, outline, by decide +kernel⟩
  fits := by decide +kernel
  visible := by decide +kernel

-- The files are listed in path order already.
theorem searched_eq : loft.searched (loft.cwd.walk room) orgFiles = loft.tree.filesBelow ⟨["w".toList]⟩ :=
  (List.mergeSort_of_pairwise (by decide +kernel)).trans (by decide +kernel)

theorem findId_eq (h : ((loft.tree.filesBelow ⟨["w".toList]⟩).find? fun (_, bytes) => holdsId id bytes).map Prod.fst =
    some parts) : loft.findId room (.ok orgFiles) id = .ok (some ⟨.slash, "w".toList :: parts⟩) := by
  obtain ⟨⟨_, bytes⟩, hf, rfl⟩ := Option.map_eq_some_iff.mp h
  exact findId_eq_some_iff.mpr ⟨by decide +kernel, orgFiles, _, bytes, rfl, rfl, by rw [searched_eq, hf]⟩

end loft

open loft

-- A file with an id as a property of a section is not missed, though another one may come first.
theorem findId_of_section {s : Section} (hl : ∀ c ∈ t, isLineEnd c → c = '\n')
    (hs : s ∈ (Document.ofText t).sections.preorder) (hi : s.id? = some id) (hn : IsSolid id) :
    id ∈ IdLine.ids t ∧ ∀ w root g parts, Searches w root g parts t → ∃ ps u,
      w.Finds root g id ps u ∧ w.findId root (.ok g) id = .ok (some { root with parts := root.parts ++ ps }) := by
  obtain ⟨_, _, _, _, _, hne⟩ := Section.property?_eq_some_iff.mp hi
  have hm := IdLine.mem_ids_of_hasProperty hl hne hn (Document.hasProperty_of_property? hs hi)
  exact ⟨hm, fun w root g parts h => h.exists_finds hm⟩

theorem findId_of_section_loft :
    (∀ c ∈ outline, isLineEnd c → c = '\n') ∧ headed ∈ (Document.ofText outline).sections.preorder ∧
      headed.id? = some "k".toList ∧ IsSolid "k".toList ∧ loft.Searches room orgFiles ["b.org".toList] outline ∧
      ∃ ps u, loft.Finds room orgFiles "k".toList ps u ∧
        loft.findId room (.ok orgFiles) "k".toList = .ok (some ⟨.slash, "w".toList :: ps⟩) := by
  have hl : ∀ c ∈ outline, isLineEnd c → c = '\n' := fun c hc h => by
    have ha : outline.all fun c => !isLineEnd c || c == '\n' := by decide +kernel
    simpa [h] using List.all_eq_true.mp ha c hc
  have hs : headed ∈ (Document.ofText outline).sections.preorder := by decide +kernel
  have hi : headed.id? = some "k".toList := by decide +kernel
  have hn : IsSolid "k".toList := by decide
  have ⟨_, hf⟩ := findId_of_section hl hs hi hn
  exact ⟨hl, hs, hi, hn, searches_outline, hf _ _ _ _ searches_outline⟩

-- What is found has the id as a property, or else its text has a stray id line.
theorem hasProperty_or_isStray_of_findId (h : w.findId root glob id = .ok (some p)) :
    ∃ g parts t, glob = .ok g ∧ p = { root with parts := root.parts ++ parts } ∧ w.Searches root g parts t ∧
      ((Document.ofText t).HasProperty "ID".toList id ∨ IdLine.IsStray t id) := by
  obtain ⟨g, parts, t, hg, hp, hf⟩ := exists_finds h
  exact ⟨g, parts, t, hg, hp, hf.searches, IdLine.hasProperty_or_isStray hf.id_mem⟩

theorem hasProperty_or_isStray_of_findId_loft :
    loft.findId room (.ok orgFiles) "k".toList = .ok (some ⟨.slash, ["w".toList, "b.org".toList]⟩) ∧
      ∃ g parts t, (.ok orgFiles : Except Fault Glob) = .ok g ∧
        ⟨.slash, ["w".toList, "b.org".toList]⟩ = { room with parts := room.parts ++ parts } ∧
        loft.Searches room g parts t ∧
        ((Document.ofText t).HasProperty "ID".toList "k".toList ∨ IdLine.IsStray t "k".toList) := by
  have hf : loft.findId room (.ok orgFiles) "k".toList = .ok (some ⟨.slash, ["w".toList, "b.org".toList]⟩) :=
    findId_eq (by decide +kernel)
  exact ⟨hf, hasProperty_or_isStray_of_findId hf⟩

-- The listing is found, whose document is nothing but text.
theorem found_without_property :
    loft.findId room (.ok orgFiles) "j".toList = .ok (some ⟨.slash, ["w".toList, "a.org".toList]⟩) ∧
      loft.content ⟨.slash, ["w".toList, "a.org".toList]⟩ = .ok listing ∧
      ¬(Document.ofText listing).HasProperty "ID".toList "j".toList := by
  refine ⟨findId_eq (by decide +kernel), by decide +kernel, ?_⟩
  rw [show Document.ofText listing = { content := some [.text listing] } by decide +kernel]
  rintro ⟨d, _, ⟨c, ⟨⟩, hd⟩ | ⟨s, hs, _⟩, _⟩
  · simp at hd
  · cases hs

end Workspace

end Transclusion
