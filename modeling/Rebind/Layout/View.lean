/-
What the elements of a layout mean: views, their ids, and inclusions of other layouts.
-/
import Rebind.Markup.Tree

namespace Rebind.Layout

open Rebind.Markup

def androidSpace : Text := "http://schemas.android.com/apk/res/android"

def idAttribute : Text := "id"

def newIdMark : Text := "@+id/"

def idMark : Text := "@id/"

def layoutAttribute : Text := "layout"

def layoutMark : Text := "@layout/"

def tagName (e : Element) : Text := e.tag.name.base

def simpleTag (e : Element) : Text := Text.afterLast '.' (tagName e)

def isInclude (e : Element) : Bool := tagName e == "include"

/-- The attributes that describe the view, by their names without qualifier, of which the first one
counts. -/
def androidAttributes (e : Element) : List (Text × Text) :=
  let named := (e.tag.attributes.filter fun a => a.space == some androidSpace).map fun a =>
    (a.name.base, a.value)
  named.eraseDupsBy fun a b => a.1 == b.1

def androidAttribute? (e : Element) (name : Text) : Option Text :=
  ((androidAttributes e).find? fun p => p.1 == name).map (·.2)

def hasAttribute (e : Element) (name : Text) : Bool := (androidAttribute? e name).isSome

def viewId? (e : Element) : Option Text :=
  match androidAttribute? e idAttribute with
  | none => none
  | some raw => (Text.after? newIdMark raw).or (Text.after? idMark raw)

def includedLayout? (e : Element) : Option Text :=
  if isInclude e then
    match e.tag.attributes.find? fun a => a.space.isNone && a.name.base == layoutAttribute with
    | some a => Text.after? layoutMark a.value
    | none => none
  else none

def hasComment (e : Element) (text : Text) : Bool := e.inner.comments.contains text

end Rebind.Layout
