/-
The ways to views from the holder: `binding.title`, through an identified include `binding.bar.title`,
and for the include itself `binding.bar.barRoot`.
-/
import Rebind.Conversion.Progress

namespace Rebind.Conversion

def rootCall : Text := "getRoot()"

/-- The way on from an include element to the view it stands for. The root of the included layout gets
an id if it has none. -/
def includeRoot (plan : Plan) (id : Text) (e : Markup.Element) : Conversion Text := do
  let target := Layout.includedLayout? e
  let included ← Conversion.ask fun s =>
    ((s.layout? (target.getD [])).map (·.name), s.load (target.getD []))
  match included with
  | none =>
    plan.note ("include '" ++ id ++ "' refers to missing layout '" ++ target.getD "None" ++
      "'; using getRoot()")
    return rootCall
  | some name =>
    if !plan.options.repair then return rootCall
    match ← Conversion.repair (Layout.Repair.rootId name) with
    | some rootId => return Naming.fieldName rootId
    | none => return rootCall

/-- The way to the view of an id, found once for each id. -/
def accessPath (plan : Plan) (id : Text) : Conversion Text := do
  match (← get).paths.get? id with
  | some path => return path
  | none =>
    let holder := plan.options.holder
    let parts ←
      match ← Conversion.ask fun s => s.locate id plan.layout with
      | none => pure [holder, Naming.fieldName id]
      | some v =>
        let way := holder :: v.chain.map Naming.fieldName ++ [Naming.fieldName id]
        if Layout.isInclude v.element then pure (way ++ [← includeRoot plan id v.element])
        else pure way
    let path := Text.join "." parts
    modify fun p => { p with paths := p.paths.insert id path }
    return path

end Rebind.Conversion
