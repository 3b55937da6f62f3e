import TypedClient.Config.Layer
import TypedClient.Yaml.Decode

/-! # Configurations from YAML texts

    A configuration file is one layer: a record in which every field may be
    left out.
-/

namespace TypedClient

open Yaml

/-- Reads what a file says about the code of the package. -/
def PackageLayer.ofNode : Node → Decoder PackageLayer :=
  Node.record "struct ClientConfig"
    [⟨"http_client_import", fun l n => do
        return { l with clientModule := some (← n.text "a string") }⟩,
     ⟨"http_client_name", fun l n => do
        return { l with clientName := some (← n.text "a string") }⟩,
     ⟨"types_module", fun l n => do return { l with typesModule := some (← n.text "a string") }⟩,
     ⟨"no_jsdoc", fun l n => do return { l with withoutComments := some (← n.bool) }⟩] {}

/-- Reads what a file says about a configuration. -/
def ConfigLayer.ofNode : Node → Decoder ConfigLayer :=
  Node.record "struct ApigenConfig"
    [⟨"api_url", fun l n => do return { l with apiUrl := some (← n.text "a string") }⟩,
     ⟨"swagger_path", fun l n => do return { l with documentPath := some (← n.text "a string") }⟩,
     ⟨"input", fun l n => do return { l with input := ← n.orNull (Node.text "path string") }⟩,
     ⟨"output_dir", fun l n => do return { l with outputFolder := some (← n.text "path string") }⟩,
     ⟨"namespace", fun l n => do return { l with clientNamespace := some (← n.text "a string") }⟩,
     ⟨"format", fun l n => do return { l with formatted := some (← n.bool) }⟩,
     ⟨"client", fun l n => do return { l with client := ← PackageLayer.ofNode n }⟩] {}

def ConfigLayer.ofYamlText (text : String) : Except Yaml.Error ConfigLayer :=
  Yaml.decode ConfigLayer.ofNode text

end TypedClient
