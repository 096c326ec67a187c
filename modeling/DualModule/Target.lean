import DualModule.Path
import DualModule.RenameRule
import DualModule.Template
/-!
# Targets

A target is one tree of generated sources: where it goes, which runs of the generator fill it, and
whether it is made loadable from both module systems afterwards.

Each run of the generator is a group of argument templates.

## Main Definitions

* `Target`, `Target.renderedInvocations`
* `Target.builtin`: the targets that are used when no configuration names others
-/

namespace DualModule

/-- What is done to a tree after it was generated. -/
inductive PostProcess where
  /-- rename modules and declarations and point imports at the new names -/
  | dualModule
deriving DecidableEq

/-- The rules by which a tree is renamed. -/
def PostProcess.rules : PostProcess → List RenameRule
  | .dualModule => RenameRule.dualModule

/-- One tree of generated sources. -/
structure Target where
  name : Text
  out : Path
  invocations : List (List Text)
  postProcess : Option PostProcess
deriving DecidableEq

namespace Target

/-- The argument groups with this target's directory filled in; the first template that cannot be
rendered decides the error. -/
def renderedInvocations (t : Target) : Except TemplateError (List (List Text)) :=
  t.invocations.mapM fun group => group.mapM fun argument => Template.render argument t.out.display

/-- Sources for a server, a browser and a compiled client. -/
def builtin : List Target := [
  { name := "ts/node".toList
    out := .ofText "ts/node".toList
    invocations := [
      ["--js_out=import_style=commonjs,binary:\x7bout\x7d".toList,
        "--grpc_out=grpc_js:\x7bout\x7d".toList,
        "--plugin=protoc-gen-grpc=./node_modules/.bin/grpc_tools_node_protoc_plugin".toList],
      ["--plugin=protoc-gen-ts=./node_modules/.bin/protoc-gen-ts".toList,
        "--ts_out=grpc_js:\x7bout\x7d".toList]]
    postProcess := some .dualModule },
  { name := "ts/web".toList
    out := .ofText "ts/web".toList
    invocations := [
      ["--js_out=import_style=commonjs:\x7bout\x7d".toList,
        "--plugin=protoc-gen-grpc=./node_modules/.bin/".toList,
        "--grpc-web_out=import_style=commonjs+dts,mode=grpcwebtext:\x7bout\x7d".toList]]
    postProcess := some .dualModule },
  { name := "go".toList
    out := .ofText "go".toList
    invocations := [
      ["--go_out=\x7bout\x7d".toList, "--go_opt=paths=source_relative".toList,
        "--go-grpc_out=\x7bout\x7d".toList, "--go-grpc_opt=paths=source_relative".toList]]
    postProcess := none }]

end Target

end DualModule
