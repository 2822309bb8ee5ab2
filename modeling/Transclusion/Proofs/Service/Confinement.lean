import Transclusion.Proofs.Files.Links
import Transclusion.Proofs.Service.Sessions

namespace Transclusion

open Text

namespace Service

variable {ρ : Type}

-- The trees have the same files at and below the root, and where a relative link leads that comes up in a
-- document there.
structure Shares (x : Service) (w : Workspace) (tree : FileTree) : Prop where
  root : ∀ l : Location, x.root.parts <+: l.parts → w.tree.AgreesAt tree l
  linked : ∀ s t d l, x.root.parts <+: s.main.parts →
    Session.start w x.settings s.main.path = .ok s → s.read w = .ok t → (s.library w).Meets t d →
      d.link.isRelative → w.placeBeside s.main d.link.body = .ok l → w.tree.AgreesAt tree l

-- The answers to requests that come one after the other.
def replies (x : Service) (w : Workspace) (f : Framework ρ) : List ρ → List Reply
  | [] => []
  | r :: rs => (x.reply w f r).1 :: replies (x.reply w f r).2 w f rs

-- The answers tell two trees apart that are the same below the root.
structure Reveals (x : Service) (w : Workspace) (tree : FileTree) (f : Framework ρ) (rs : List ρ) :
    Prop where
  here : w.WellFormed
  there : tree.WellFormed
  started : start w x.settings x.token = .ok x
  root : ∀ l : Location, x.root.parts <+: l.parts → w.tree.AgreesAlong tree l
  replies : x.replies w f rs ≠ x.replies { w with tree } f rs

end Service

-- A session of a document below the root, with nothing in its cache but what the document leads to.
structure Session.Keeps (x : Service) (w : Workspace) (s : Session) : Prop where
  below : x.root.parts <+: s.main.parts
  named : s.main.IsNamed
  file : ∃ bytes, w.tree.node? s.main = some (.file bytes)
  opened : ∃ cache, Session.start w x.settings s.main.path = .ok { s with cache }
  cached : ∀ t, s.read w = .ok t → s.cache.All ((s.library w).Keeps t)

-- What holds of a service after any requests.
structure Service.Keeps (x : Service) (w : Workspace) (now : Service) : Prop where
  alike : x.Alike now
  sessions : ∀ l s, (l, s) ∈ now.sessions → s.Keeps x w ∧ s.main = l

-- Two trees that are fit to be compared, and the same wherever the service may look.
structure Service.Twins (x : Service) (w : Workspace) (tree : FileTree) : Prop where
  here : w.WellFormed
  there : tree.WellFormed
  named : x.root.IsNamed
  root : w.resolve x.settings.root = .ok x.root
  shares : x.Shares w tree

variable {ρ : Type} {f : Service.Framework ρ} {x now : Service} {w : Workspace} {tree : FileTree} {s : Session}
  {t : Tree} {ds : List Directive} {l : Location} {path : Text} {cache : Cache}

namespace Session

section Reading

theorem start_eq_ok {settings : Settings} {p : Path} (h : start w settings p = .ok s) :
    w.resolve p = .ok s.main ∧ w.resolve settings.root = .ok s.root ∧ s.cache.entries = [] := by
  rw [start] at h
  cases hm : w.resolve p <;> simp only [hm, bind, Except.bind, reduceCtorEq] at h
  cases hr : w.resolve settings.root <;> simp only [hr, reduceCtorEq, Except.ok.injEq] at h
  rw [←h]
  exact ⟨rfl, rfl, rfl⟩

theorem no_dots_of_start {settings : Settings} (h : start w settings l.path = .ok s) :
    "..".toList ∉ s.main.parts := by
  have hm : w.locate l.path = .ok s.main := (start_eq_ok h).left
  rw [←Workspace.locate_eq_ok hm, Location.walk_of_anchored rfl w.cwd {}]
  exact Location.not_mem_walk _

theorem directives_eq_ok (h : s.directives w = .ok ds) : ∃ t, s.read w = .ok t ∧ ds = t.occurrences := by
  rw [directives] at h
  cases hr : s.read w <;> simp only [hr, bind, Except.bind, reduceCtorEq] at h
  case ok t => exact ⟨t, rfl, (Tree.directives_eq_ok_iff.mp (mapError_eq_ok_iff.mp h)).right⟩

theorem Keeps.root_eq (h : s.Keeps x w) (hx : x.Twins w tree) : s.root = x.root := by
  have ⟨_, hs⟩ := h.opened
  have ⟨_, hr, _⟩ := start_eq_ok hs
  exact Except.ok.inj (hr.symm.trans hx.root)

theorem Keeps.along (h : s.Keeps x w) (hx : x.Twins w tree) : w.tree.AgreesAlong tree s.main :=
  (hx.shares.root _ h.below).along hx.here.tree hx.there h.file

theorem Keeps.read_eq (h : s.Keeps x w) (hx : x.Twins w tree) :
    s.read w = s.read { w with tree } := by
  have hc : w.content s.main.path = ({ w with tree } : Workspace).content s.main.path :=
    (h.along hx).content_eq h.named.no_dots w.cwd
  rw [read, read, hc]

theorem Keeps.library_agrees (h : s.Keeps x w) (hx : x.Twins w tree) (hr : s.read w = .ok t) :
    (s.library w).Agrees (s.library { w with tree }) t := by
  intro d hd
  have hs := h.root_eq hx
  have ⟨cache, hc⟩ := h.opened
  refine Workspace.fetch_library_congr hx.here hx.there h.named (hs ▸ hx.named)
    ⟨hs ▸ (h.along hx).above h.below, hs ▸ hx.shares.root, fun l => ?_⟩
  exact hx.shares.linked { s with cache } t d l h.below hc hr hd

end Reading

section Answers

theorem Keeps.render_eq (h : s.Keeps x w) (hx : x.Twins w tree) (style : Style) :
    s.render w style = s.render { w with tree } style := by
  rw [render, render, onDocument, onDocument, ←h.read_eq hx]
  cases hr : s.read w
  case error => rfl
  case ok t =>
    have he : (s.renderer w style).render [] t s.cache =
        { s.renderer w style with library := s.library { w with tree } }.render [] t s.cache :=
      Renderer.render_of_agrees (h.library_agrees hx hr) (h.cached t hr)
    simp only [he]
    rfl

theorem Keeps.resolveEach_eq (h : s.Keeps x w) (hx : x.Twins w tree) (hr : s.read w = .ok t)
    (hd : ds ⊆ t.occurrences) : s.resolveEach w ds = s.resolveEach { w with tree } ds := by
  have he : (s.renderer w {}).resolveEach ds s.cache =
      { s.renderer w {} with library := s.library { w with tree } }.resolveEach ds s.cache :=
    Renderer.resolveEach_of_agrees (h.library_agrees hx hr) hd s.cache
  rw [resolveEach, resolveEach, he]
  rfl

theorem Keeps.directives_eq (h : s.Keeps x w) (hx : x.Twins w tree) :
    s.directives w = s.directives { w with tree } := by
  rw [directives, directives, h.read_eq hx]

theorem Keeps.outcomes_eq (h : s.Keeps x w) (hx : x.Twins w tree) (index : Option Nat) :
    s.outcomes w index = s.outcomes { w with tree } index := by
  rw [outcomes, outcomes, ←h.directives_eq hx]
  cases hd : s.directives w
  case error => rfl
  case ok ds =>
    obtain ⟨t, hr, rfl⟩ := directives_eq_ok hd
    cases index
    case none => simp only [h.resolveEach_eq hx hr (List.Subset.refl _)]
    case some i =>
      cases hi : t.occurrences[i]?
      case none => simp only [hi]
      case some d =>
        have hm : [d] ⊆ t.occurrences := by simpa using List.mem_of_getElem? hi
        simp only [hi, h.resolveEach_eq hx hr hm]

theorem Keeps.answer_eq (h : s.Keeps x w) (hx : x.Twins w tree) (path : Text)
    (q : Service.Question) : s.answer w path q = s.answer { w with tree } path q := by
  cases q
  case directives     => rw [answer, answer, h.directives_eq hx]
  case outcomes index => exact h.outcomes_eq hx index
  case text headers   => rw [answer, answer, h.render_eq hx]
  case invalidation i => cases i <;> rfl

end Answers

section Caches

theorem Keeps.with_cache (h : s.Keeps x w)
    (hc : ∀ t, s.read w = .ok t → cache.All ((s.library w).Keeps t)) : { s with cache }.Keeps x w :=
  ⟨h.below, h.named, h.file, h.opened, hc⟩

theorem Keeps.render (h : s.Keeps x w) (style : Style) : (s.render w style).2.Keeps x w := by
  rw [Session.render, onDocument]
  cases hr : s.read w
  case error => exact h
  case ok t =>
    refine h.with_cache fun t' ht => ?_
    cases hr.symm.trans ht
    exact Renderer.all_render ((s.renderer w style).gives_keeps t) (h.cached t hr)

theorem Keeps.resolveEach (h : s.Keeps x w) (ds : List Directive) :
    (s.resolveEach w ds).2.Keeps x w := by
  refine h.with_cache fun t hr => ?_
  exact Renderer.all_resolveAll ((s.renderer w {}).gives_keeps t) (h.cached t hr)

theorem Keeps.answer (h : s.Keeps x w) (path : Text) (q : Service.Question) :
    (s.answer w path q).2.Keeps x w := by
  cases q
  case directives => rw [Session.answer]; split <;> exact h
  case outcomes index =>
    rw [Session.answer, outcomes]
    split
    case h_1 => exact h
    case h_2 =>
      cases index
      case none => exact h.resolveEach _
      case some i =>
        dsimp only
        split
        case h_1 d _ => exact h.resolveEach [d]
        case h_2     => exact h
  case text headers =>
    have hr := h.render { headers }
    rw [Session.answer]
    split
    case h_1 hs => rwa [hs] at hr
    case h_2 hs => rwa [hs] at hr
  case invalidation id =>
    cases id
    case none    => exact h.with_cache fun _ _ => Cache.All.clear
    case some id => exact h.with_cache fun t hr => (h.cached t hr).invalidate id

end Caches

end Session

namespace Service

section Handling

theorem locate_eq (hx : x.Twins w tree) (path : Text) :
    x.locate w path = x.locate { w with tree } path := by
  by_cases hn : x.HasNul path
  case pos => rw [locate_of_nul hn, locate_of_nul hn]
  case neg =>
    rw [locate_of_not_nul hn, locate_of_not_nul hn]
    by_cases hu : x.root.parts <+: (x.place path).parts
    case neg => rw [if_neg hu, if_neg hu]
    case pos =>
      have hd : "..".toList ∉ (x.place path).parts := Location.not_mem_walk _
      have hf : w.isFile (x.place path).path = { w with tree }.isFile (x.place path).path :=
        (hx.shares.root _ hu).isFile_eq hx.here.tree hx.there hd w.cwd
      rw [if_pos hu, if_pos hu, hf]

theorem Keeps.session (h : x.Keeps w now) (hu : x.root.parts <+: l.parts) (hl : l.IsNamed)
    (hf : w.isFile l.path = .ok true) (hs : now.session w l = .ok s) : s.Keeps x w ∧ s.main = l := by
  rw [Service.session] at hs
  split at hs
  case h_1 s' hs' =>
    cases hs
    obtain ⟨_, _, he, _⟩ := List.lookup_eq_some_iff.mp hs'
    exact h.sessions l s (by simp [he])
  case h_2 =>
    have ho := mapError_eq_ok_iff.mp hs
    have hx : now.settings = x.settings := by rw [h.alike]
    have hm := Session.main_of_start ho hl.no_dots
    rw [hx, ←hm] at ho
    have hf := FileTree.node?_of_isFile hl.no_dots hf
    have he := (Session.start_eq_ok ho).right.right
    exact ⟨⟨hm ▸ hu, hm ▸ hl, hm ▸ hf, ⟨s.cache, ho⟩, fun _ _ => .of_empty he⟩, hm⟩

theorem place_named (hx : x.root.IsNamed) (path : Text) : (x.place path).IsNamed :=
  Location.isNamed_top.walk (hx.path.join (Path.isNamed_ofText path))

theorem Keeps.handle (h : x.Keeps w now) (hn : x.root.IsNamed) (f : Framework ρ) (r : ρ) :
    x.Keeps w (now.handle w f r).2 := by
  have ha := h.alike.handle w f r
  cases ht : now.target? f r
  case none => rwa [handle_of_target?_eq_none ht]
  case some l =>
    have hl : l.IsNamed := by
      obtain ⟨path, _, _, _, rfl⟩ := query_of_target? ht
      exact place_named (h.alike.root_eq ▸ hn) path
    have hh := handles ht w
    generalize now.handle w f r = a at hh ha ⊢
    cases hh
    case served path q s hu hf hs =>
      have ⟨hk, hm⟩ := h.session (h.alike.root_eq ▸ hu) hl hf hs
      refine ⟨ha, fun k s' hk' => ?_⟩
      rcases mem_keep hk' with ⟨rfl, rfl⟩ | hk'
      · have ⟨⟨_, hc⟩, _⟩ := s.answer_spec w path q
        exact ⟨hk.answer path q, by rw [hc, hm]⟩
      · exact h.sessions k s' hk'
    all_goals exact h

theorem locate_eq_ok (h : x.locate w path = .ok l) :
    x.place path = l ∧ x.root.parts <+: l.parts ∧ w.isFile l.path = .ok true := by
  by_cases hn : x.HasNul path
  case pos => cases (locate_of_nul hn).symm.trans h
  case neg =>
    rw [locate_of_not_nul hn] at h
    split at h
    case isFalse => cases h
    case isTrue hu =>
      split at h <;> cases h
      case h_1 hf => exact ⟨rfl, hu, hf⟩

theorem Keeps.handle_eq (h : x.Keeps w now) (hx : x.Twins w tree) (f : Framework ρ) (r : ρ) :
    now.handle w f r = now.handle { w with tree } f r := by
  rw [Service.handle, Service.handle]
  rcases now.query f r with _ | _ | ⟨path, q⟩
  case error     => rfl
  case ok.health => rfl
  case ok.document =>
    have he : now.locate w path = now.locate { w with tree } path := by
      rw [h.alike]
      exact locate_eq hx path
    simp only [Service.answer, ←he]
    cases hl : now.locate w path
    case error => rfl
    case ok l =>
      obtain ⟨hp, hu, hf⟩ := locate_eq_ok hl
      have hp : l.IsNamed := hp ▸ place_named (h.alike.root_eq ▸ hx.named) path
      have hs : now.session { w with tree } l = now.session w l := rfl
      simp only [bind, Except.bind, hs]
      cases hs : now.session w l
      case error => rfl
      case ok s =>
        obtain ⟨hk, _⟩ := h.session (h.alike.root_eq ▸ hu) hp hf hs
        simp only [hk.answer_eq hx path q]

theorem Keeps.replies_eq (h : x.Keeps w now) (hx : x.Twins w tree) (f : Framework ρ) (rs : List ρ) :
    now.replies w f rs = now.replies { w with tree } f rs := by
  induction rs generalizing now
  case nil => rfl
  case cons r rs hi =>
    have hr : now.reply w f r = now.reply { w with tree } f r := by
      rw [reply, reply, h.handle_eq hx]
    have hi := hi (h.handle hx.named f r)
    rw [replies, replies, ←hr]
    exact congrArg _ hi

end Handling

theorem start_eq_ok {settings : Settings} {token : Option Text} (h : start w settings token = .ok x) :
    w.locate settings.root = .ok x.root ∧ x.settings = settings ∧ x.sessions = [] := by
  rw [start] at h
  cases hl : w.locate settings.root <;> rw [hl] at h <;> cases h
  exact ⟨rfl, rfl, rfl⟩

-- Nothing is revealed of files that are neither at or below the root, nor linked from a document that is
-- served. The root is not named for a home.
theorem replies_confined (f : Framework ρ) (w : Workspace) (tree : FileTree) (settings : Settings) (root : Text)
    (token : Option Text) (x : Service) (hw : w.WellFormed) (ht : tree.WellFormed)
    (hh : w.expandHome (.ofText root) = .ok (.ofText root))
    (hx : start w { settings with root := .ofText root } token = .ok x) (hs : x.Shares w tree)
    (rs : List ρ) :
    start { w with tree } { settings with root := .ofText root } token = .ok x ∧
      x.replies w f rs = x.replies { w with tree } f rs := by
  refine ⟨hx, ?_⟩
  have ⟨hl, he, hn⟩ := start_eq_ok hx
  have hr : x.root.IsNamed := Workspace.locate_eq_ok hl ▸ hw.cwd.walk (Path.isNamed_ofText root)
  have ht' : w.resolve x.settings.root = .ok x.root := by
    rw [he, Workspace.resolve, hh]
    exact hl
  have hk : x.Keeps w x := ⟨.refl x, by simp [hn]⟩
  exact hk.replies_eq ⟨hw, ht, hr, ht', hs⟩ f rs

-- A document below the root that includes one outside of it.
def lodge : Workspace where
  cwd := ⟨["w".toList]⟩
  tree :=
    { nodes :=
        [(⟨["w".toList]⟩, .directory), (⟨["w".toList, "r".toList]⟩, .directory),
          (⟨["w".toList, "r".toList, "a.org".toList]⟩, .file "#+transclude: [[../b.org]]".toUTF8.toList),
          (⟨["w".toList, "b.org".toList]⟩, .file [111])] }

namespace lodge

def service : Service where
  settings := { root := .ofText "r".toList }
  root := ⟨["w".toList, "r".toList]⟩

def main : Location :=
  ⟨["w".toList, "r".toList, "a.org".toList]⟩

def opened : Session where
  main := main
  root := service.root
  limit := service.settings.depthLimit
  glob := service.settings.glob
  cache := { capacity := service.settings.capacity }

def directive : Directive where
  link := { body := "../b.org".toList }

def document : Tree :=
  .whole (.ofText "#+transclude: [[../b.org]]".toList)

def linked : Location :=
  ⟨["w".toList, "b.org".toList]⟩

-- No link leads there.
def attic : Location :=
  ⟨["w".toList, "c.org".toList]⟩

def ask : Plain where
  method := "GET".toList
  path := "/render".toList
  params := [("path".toList, "a.org".toList)]

def texts (as : List Reply) : List (Option Text) :=
  as.map fun a => a.body.map Json.inline

theorem main_of_read (hs : Session.start lodge service.settings s.main.path = .ok s)
    (hu : service.root.parts <+: s.main.parts) (hr : s.read lodge = .ok t) : s.main = main := by
  have hw : lodge.tree.WellFormed := by decide +kernel
  rw [Session.read] at hr
  cases hc : lodge.content s.main.path <;> rw [hc] at hr
  case error => cases hr
  case ok =>
    have ⟨bytes, hn⟩ := FileTree.node?_of_content (Session.no_dots_of_start hs) hc
    have hm := hw.node?_eq_file_iff.mp hn
    simp only [lodge, List.mem_cons, Prod.mk.injEq, reduceCtorEq, and_false, false_or,
      List.not_mem_nil, or_false] at hm
    rcases hm with ⟨hm, _⟩ | ⟨hm, _⟩
    · exact hm
    · exact absurd (hm ▸ hu) (by decide)

theorem meets_document {d : Directive} (h : (opened.library lodge).Meets document d) : d = directive := by
  have ho : document.occurrences = [directive] := by decide +kernel
  have hf : ((opened.library lodge).fetch directive).1.toOption.all (·.content.occurrences.isEmpty) := by
    decide +kernel
  induction h
  case here hd => simpa [ho] using hd
  case inside he hd hi =>
    cases hi
    simp only [he, Except.toOption, Option.all_some, List.isEmpty_iff] at hf
    rw [hf] at hd
    cases hd

end lodge

open lodge

theorem shares_lodge : service.Shares lodge (lodge.tree.add attic (.file [117])) := by
  constructor
  case root =>
    exact fun l h => (FileTree.agreesAlong_add_of_apart (by decide) (by decide) h _).agreesAt
  case linked =>
    intro s t d l hr hs ht hd _ hl
    have hm := main_of_read hs hr ht
    rw [hm] at hs
    cases (show Session.start lodge service.settings main.path = .ok opened from rfl).symm.trans hs
    have hc : opened.read lodge = .ok document := by decide +kernel
    cases hc.symm.trans ht
    cases meets_document hd
    have hb : lodge.placeBeside main directive.link.body = .ok linked := by decide +kernel
    cases hb.symm.trans hl
    exact (FileTree.agreesAlong_add (by decide) _).agreesAt

theorem replies_confined_lodge :
    service.replies lodge plain [ask] =
      service.replies { lodge with tree := lodge.tree.add attic (.file [117]) } plain [ask] ∧
    texts (service.replies lodge plain [ask]) =
      [some "\x7b\"path\": \"a.org\", \"text\": \"o\\n\"\x7d".toList] := by
  have ⟨_, hr⟩ := replies_confined plain lodge (lodge.tree.add attic (.file [117])) {} "r".toList none
    service (by decide +kernel) (by decide +kernel) rfl rfl shares_lodge [ask]
  exact ⟨hr, by decide +kernel⟩

-- A link leads out of the root.
theorem replies_not_confined :
    service.Reveals lodge (lodge.tree.add linked (.file [117])) plain [ask] := by
  constructor
  case root    => exact fun l h => FileTree.agreesAlong_add_of_apart (by decide) (by decide) h _
  case replies => exact fun h => absurd (congrArg texts h) (by decide +kernel)
  case started => rfl
  all_goals decide +kernel

end Service

end Transclusion
