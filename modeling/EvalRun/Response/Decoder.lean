import EvalRun.Response.Shape
import EvalRun.Json.Reader

/-! # Response.Decoder — from a response body to its hits

    A decoder is an ordered list of shapes. The first shape that claims a
    payload decodes it; a payload that no shape claims has no hits. Only a body
    that is not JSON, or a claimed payload with an unusable hit, is an error.
-/

namespace EvalRun.Response

/-- The shapes that a configuration admits. -/
inductive Format where
  /-- Either shape, told apart for each response. -/
  | auto
  /-- Flat responses only. -/
  | flat
  /-- Nested responses only. -/
  | nested
  deriving DecidableEq, Repr

/-- The name of a format. -/
def Format.name : Format → String
  | auto => "auto"
  | flat => "flat"
  | nested => "nested"

/-- All formats. -/
def Format.all : List Format := [.auto, .flat, .nested]

/-- The format with the given name. -/
def Format.ofName? (name : String) : Option Format := all.find? fun f => f.name = name

/-- The shapes that are tried, in this order. -/
structure Decoder where
  shapes : List Shape
  deriving DecidableEq, Repr

namespace Decoder

/-- The decoder of a format. -/
def ofFormat : Format → Decoder
  | .auto => ⟨[.flat, .nested]⟩
  | .flat => ⟨[.flat]⟩
  | .nested => ⟨[.nested]⟩

/-- The decoder that tries one more shape after its own. -/
def withShape (d : Decoder) (shape : Shape) : Decoder := ⟨d.shapes ++ [shape]⟩

/-- Decodes a payload. -/
def decodeValue (d : Decoder) (payload : Json) : Except DecodeError (List Hit) :=
  match d.shapes.find? fun shape => shape.claims payload with
  | some shape => shape.decode payload
  | none => .ok []

/-- Decodes a response body. -/
def decodeBody (d : Decoder) (body : String) : Except DecodeError (List Hit) :=
  match Json.parse body with
  | .ok payload => d.decodeValue payload
  | .error _ => .error .invalidJson

/-- How a decoder is shown: the names of its shapes in quotation marks. -/
def describe (d : Decoder) : String :=
  let names := d.shapes.map fun shape => Text.quoted shape.name
  "ResponseDecoder \x7b shapes: [" ++ String.intercalate ", " names ++ "] \x7d"

end Decoder

end EvalRun.Response
