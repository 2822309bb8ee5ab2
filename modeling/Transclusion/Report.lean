import Transclusion.Check

namespace Transclusion

def Directive.json (d : Directive) : Json :=
  .object
    [("scheme".toList, .ofOption .string d.link.scheme),
      ("body".toList, .string d.link.body),
      ("extra".toList, .ofOption .string d.link.extra),
      ("description".toList, .ofOption .string d.description),
      ("no_first_heading".toList, .bool d.noFirstHeading),
      ("only_contents".toList, .bool d.onlyContents),
      ("level".toList, .ofOption .ofInt d.level),
      ("exclude_elements".toList, .strings d.excluded),
      ("header".toList, .string d.header)]

def Failure.json (f : Failure) : Json :=
  .object
    [("ok".toList, .bool false),
      ("kind".toList, .string f.kind.name),
      ("message".toList, .string f.message),
      ("retryable".toList, .bool f.retryable)]

def Success.json (s : Success) : Json :=
  .object
    [("ok".toList, .bool true),
      ("source_id".toList, .string s.included.sourceId),
      ("source_name".toList, .string s.name),
      ("source".toList, .ofOption (.string ·.id) s.included.source),
      ("target_section".toList, .ofOption .string s.included.target),
      ("content".toList, .string s.included.content.markup)]

def outcomeJson : Outcome → Json
  | .error f => f.json
  | .ok s => s.json

def Call.json (c : Call) : Json :=
  .object [("directive".toList, c.task.directive.json), ("result".toList, outcomeJson c.outcome)]

end Transclusion
