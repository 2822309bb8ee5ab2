import Transclusion.Text.Case

namespace Transclusion

structure Headline where
  stars : Nat
  todo : Option Text := none
  priority : Option Text := none
  title : Option Text := none
  tags : List Text := []
  deriving DecidableEq

-- A line such as `#+title: Notes`. The key is kept as written, with the mark and the colon.
structure Keyword where
  key : Text
  value : Option Text := none
  deriving DecidableEq

structure Drawer where
  properties : List (Text × Text) := []
  deriving DecidableEq

-- Text is one or more whole lines.
inductive Element
  | keyword (k : Keyword)
  | drawer (d : Drawer)
  | text (t : Text)
  deriving DecidableEq

abbrev Content := List Element

-- First child, next sibling: `inner` is nested in the headline and `rest` follows it.
inductive Forest
  | nil
  | cons (headline : Headline) (content : Option Content) (inner rest : Forest)
  deriving DecidableEq, Inhabited

structure Section where
  headline : Headline
  content : Option Content := none
  sections : Forest := .nil
  deriving DecidableEq

structure Document where
  content : Option Content := none
  sections : Forest := .nil
  deriving DecidableEq

inductive Tree
  | whole (d : Document)
  | part (s : Section)
  deriving DecidableEq

namespace Drawer

-- The name is asked for in upper case and may be written in any case.
def get? (d : Drawer) (name : Text) : Option Text :=
  (d.properties.find? fun p => Text.upper p.1 == name).map (·.2)

end Drawer

namespace Element

def keyword? : Element → Option Keyword
  | keyword k => some k
  | _ => none

def drawer? : Element → Option Drawer
  | drawer d => some d
  | _ => none

end Element

namespace Forest

def append : Forest → Forest → Forest
  | nil, g => g
  | cons h c i r, g => cons h c i (r.append g)

instance : Append Forest := ⟨append⟩

@[simp] theorem nil_append (f : Forest) : nil ++ f = f := rfl

@[simp] theorem cons_append (h : Headline) (c : Option Content) (i r f : Forest) :
    cons h c i r ++ f = cons h c i (r ++ f) := rfl

@[simp] theorem append_nil (f : Forest) : f ++ nil = f := by
  induction f with
  | nil => rfl
  | cons _ _ _ _ _ ih => simp [ih]

theorem append_assoc (f g k : Forest) : f ++ g ++ k = f ++ (g ++ k) := by
  induction f with
  | nil => rfl
  | cons _ _ _ _ _ ih => simp [ih]

def ofList : List Section → Forest
  | [] => nil
  | s :: ss => cons s.headline s.content s.sections (ofList ss)

def toList : Forest → List Section
  | nil => []
  | cons h c i r => ⟨h, c, i⟩ :: r.toList

@[simp] theorem toList_ofList (ss : List Section) : (ofList ss).toList = ss := by
  induction ss with
  | nil => rfl
  | cons _ _ ih => simp [ofList, toList, ih]

@[simp] theorem ofList_toList (f : Forest) : ofList f.toList = f := by
  induction f with
  | nil => rfl
  | cons _ _ _ _ _ ih => simp [ofList, toList, ih]

@[simp] theorem toList_append (f g : Forest) : (f ++ g).toList = f.toList ++ g.toList := by
  induction f with
  | nil => rfl
  | cons _ _ _ _ _ ih => simp [toList, ih]

end Forest

namespace Section

-- Only the first drawer below the headline counts.
def drawer? (s : Section) : Option Drawer :=
  s.content.bind (·.findSome? Element.drawer?)

def property? (s : Section) (name : Text) : Option Text :=
  Text.given (s.drawer?.bind (·.get? name))

def id? (s : Section) : Option Text :=
  s.property? "ID".toList

def customId? (s : Section) : Option Text :=
  s.property? "CUSTOM_ID".toList

end Section

namespace Tree

def content : Tree → Option Content
  | whole d => d.content
  | part s => s.content

def sections : Tree → Forest
  | whole d => d.sections
  | part s => s.sections

end Tree

end Transclusion
