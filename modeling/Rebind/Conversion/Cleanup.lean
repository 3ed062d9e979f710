/-
Taking out what bound the views before: the calls that bind them, and the fields and statements that
unbind them.
-/
import Rebind.Conversion.Progress

namespace Rebind.Conversion

open Text

def unbinderType : Text := "Unbinder"

/-- Takes out one call that binds views, if it is a statement of its own. -/
def removeBindCall (plan : Plan) (method : Java.Method) (body : Java.Block) (call : Match Unit) :
    Conversion Unit := do
  let { masked, .. } := plan.unit
  let closing ← Conversion.read (Java.partner masked (call.stop - 1))
  let semicolon := skipBlanks masked (closing + 1) body.closing
  let before := dropBlanksEnd (slice masked body.opening call.start)
  let startsStatement := before.getLast?.any fun c => ['{', '}', ';'].contains c
  if startsStatement && decide (semicolon < body.closing) && masked[semicolon]? == some ';' then
    Conversion.edit fun d => d.remove call.start (semicolon + 1)
  else
    plan.note ("ButterKnife.bind inside an expression in " ++ method.name ++ "; left in place")

/-- The statements with which a field unbinds the views, and those with which it is reset. -/
def unbinderStatements (masked : Text) (name : Text) (body : Java.Block) : List Java.Span :=
  let spans (before : Before) (r : Text → Option Text) : List Java.Span :=
    (allMatches masked body.opening body.closing before fun t => (r t).map ((), ·)).map fun m =>
      ⟨m.start, m.stop⟩
  spans Before.anywhere (guardedUnbind? name) ++ spans Before.anywhere (unbindCall? name) ++
    spans Before.unqualified (resetStatement? name)

def removeUnbinderUses (plan : Plan) (name : Text) : Conversion Unit :=
  (plan.type.methods.filterMap Java.Method.body).forM fun body =>
    (unbinderStatements plan.unit.masked name body).forM fun s =>
      Conversion.edit fun d => d.remove s.start s.stop

def removeUnbinder (plan : Plan) (field : Java.Field) : Conversion Unit := do
  Conversion.edit fun d => d.remove field.span.start field.span.stop
  field.names.forM (removeUnbinderUses plan)

def removeBindCalls (plan : Plan) (method : Java.Method) : Conversion Unit :=
  match method.body with
  | none => return
  | some body =>
    (allMatches plan.unit.masked body.opening body.closing Before.unqualified bindCall?).forM
      (removeBindCall plan method body)

def removeBinding (plan : Plan) : Conversion Unit := do
  plan.type.methods.forM (removeBindCalls plan)
  (plan.type.fields.filter fun f => Naming.simpleTypeName f.type == unbinderType).forM
    (removeUnbinder plan)

end Rebind.Conversion
