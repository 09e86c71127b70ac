import ServerActions.Generation
import ServerActions.Json.Printer

namespace ServerActions

def version : String := "0.1.0"

def ImportBinding.toJson (i : ImportBinding) : Json :=
  .object [("names", .texts i.names), ("path", .text i.path)]

def Generation.report (g : Generation) (written : Bool) : Json :=
  .object
    [("version", .text version),
      ("declaration", .text g.declaration.text),
      ("output", .text g.output.text),
      ("written", .boolean written),
      ("entry_points", .texts g.entryPoints.names),
      ("imports", .array (g.resolution.imports.map ImportBinding.toJson)),
      ("dropped_imports", .texts g.resolution.dropped),
      ("unbacked", .texts g.resolution.unbacked),
      ("extra_factory_calls", .number g.extraCalls)]

end ServerActions
