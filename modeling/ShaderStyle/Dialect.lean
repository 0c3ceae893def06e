import ShaderStyle.Token
import ShaderStyle.Text.Lowercase

/-!
# Dialects

The two shading languages differ in their words: which of them are keywords, which name types, which
qualify a declaration and which introduce a group of fields. Everything else is common to both.
-/

namespace ShaderStyle

/-- The shading languages. -/
inductive Dialect where
  | hlsl
  | glsl
  deriving DecidableEq, Repr, Inhabited

namespace Dialect

/-- All dialects, in the order in which extensions are looked up. -/
def all : List Dialect := [.hlsl, .glsl]

/-- The dialect's name on the command line. -/
def name : Dialect → String
  | .hlsl => "hlsl"
  | .glsl => "glsl"

/-! ## HLSL -/

/-- The scalar types of HLSL. -/
def hlslScalars : List (String × TypeCategory) :=
  [ ("bool", .bool),
    ("int", .integer), ("uint", .integer), ("dword", .integer), ("min16int", .integer),
    ("min12int", .integer), ("min16uint", .integer), ("int16_t", .integer),
    ("uint16_t", .integer), ("int64_t", .integer), ("uint64_t", .integer),
    ("half", .float), ("float", .float), ("double", .float), ("min16float", .float),
    ("min10float", .float), ("float16_t", .float) ]

/-- The vectors and matrices over a scalar type: `float3`, `float4x4`. -/
def hlslFamily (scalar : String) : List (String × TypeCategory) :=
  ["1", "2", "3", "4"].flatMap fun rows =>
    (scalar ++ rows, TypeCategory.vector) ::
      ["1", "2", "3", "4"].map fun columns => (scalar ++ rows ++ "x" ++ columns, .matrix)

/-- The built-in types of HLSL. -/
def hlslTypes : List (String × TypeCategory) :=
  [("void", .void)] ++ hlslScalars ++ hlslScalars.flatMap (fun s => hlslFamily s.1) ++
  [ ("vector", .vector), ("matrix", .matrix), ("SamplerState", .sampler),
    ("SamplerComparisonState", .sampler), ("sampler", .sampler) ] ++
  [ "Texture1D", "Texture1DArray", "Texture2D", "Texture2DArray", "Texture2DMS",
    "Texture2DMSArray", "Texture3D", "TextureCube", "TextureCubeArray", "RWTexture1D",
    "RWTexture1DArray", "RWTexture2D", "RWTexture2DArray", "RWTexture3D" ].map (·, .texture) ++
  [ "Buffer", "RWBuffer", "StructuredBuffer", "RWStructuredBuffer", "ByteAddressBuffer",
    "RWByteAddressBuffer", "AppendStructuredBuffer", "ConsumeStructuredBuffer",
    "ConstantBuffer", "RaytracingAccelerationStructure" ].map (·, .buffer)

/-- The qualifiers of HLSL. -/
def hlslQualifiers : List String :=
  [ "static", "const", "uniform", "extern", "volatile", "shared", "groupshared", "inline",
    "precise", "in", "out", "inout", "nointerpolation", "centroid", "noperspective",
    "row_major", "column_major", "unorm", "snorm", "globallycoherent", "export" ]

/-- The keywords of HLSL that are no qualifiers. -/
def hlslOtherKeywords : List String :=
  [ "struct", "cbuffer", "tbuffer", "return", "if", "else", "for", "while", "do", "switch",
    "case", "default", "break", "continue", "discard", "typedef", "register", "packoffset",
    "true", "false", "namespace", "class", "interface", "technique", "technique10",
    "technique11", "pass", "compile", "sizeof" ]

/-! ## GLSL -/

/-- The vector and matrix types of GLSL: `vec3`, `dmat4x2`. -/
def glslFamilies : List (String × TypeCategory) :=
  (["vec", "ivec", "uvec", "bvec", "dvec"].flatMap fun stem =>
    ["2", "3", "4"].map fun size => (stem ++ size, TypeCategory.vector)) ++
  (["mat", "dmat"].flatMap fun stem =>
    ["2", "3", "4"].flatMap fun columns =>
      (stem ++ columns, TypeCategory.matrix) ::
        ["2", "3", "4"].map fun rows => (stem ++ columns ++ "x" ++ rows, .matrix))

/-- The shapes of the images that GLSL samples. -/
def glslShapes : List String :=
  [ "1D", "2D", "3D", "Cube", "2DRect", "1DArray", "2DArray", "CubeArray", "Buffer", "2DMS",
    "2DMSArray" ]

/-- The sampler, texture and image types of GLSL. -/
def glslImages : List (String × TypeCategory) :=
  (["", "i", "u"].flatMap fun component =>
    glslShapes.flatMap fun shape =>
      [ (component ++ "sampler" ++ shape, TypeCategory.sampler),
        (component ++ "texture" ++ shape, .texture),
        (component ++ "image" ++ shape, .texture) ]) ++
  [ "sampler1DShadow", "sampler2DShadow", "samplerCubeShadow", "sampler2DRectShadow",
    "sampler1DArrayShadow", "sampler2DArrayShadow", "samplerCubeArrayShadow", "sampler",
    "samplerShadow" ].map (·, .sampler)

/-- The built-in types of GLSL. -/
def glslTypes : List (String × TypeCategory) :=
  [ ("void", .void), ("bool", .bool), ("int", .integer), ("uint", .integer), ("float", .float),
    ("double", .float), ("atomic_uint", .integer) ] ++ glslFamilies ++ glslImages

/-- The qualifiers of GLSL. -/
def glslQualifiers : List String :=
  [ "const", "uniform", "in", "out", "inout", "attribute", "varying", "highp", "mediump",
    "lowp", "flat", "smooth", "noperspective", "centroid", "sample", "patch", "invariant",
    "precise", "coherent", "volatile", "restrict", "readonly", "writeonly", "shared" ]

/-- The keywords of GLSL that are no qualifiers. -/
def glslOtherKeywords : List String :=
  [ "struct", "buffer", "layout", "return", "if", "else", "for", "while", "do", "switch",
    "case", "default", "break", "continue", "discard", "true", "false", "precision",
    "subroutine" ]

/-! ## What a dialect says about a word -/

/-- The built-in types, by name. -/
def types : Dialect → List (String × TypeCategory)
  | .hlsl => hlslTypes
  | .glsl => glslTypes

/-- The words that may stand before the type of a declaration. -/
def qualifiers : Dialect → List String
  | .hlsl => hlslQualifiers
  | .glsl => glslQualifiers

/-- The keywords, qualifiers among them. -/
def keywords : Dialect → List String
  | .hlsl => hlslQualifiers ++ hlslOtherKeywords
  | .glsl => glslQualifiers ++ glslOtherKeywords

/-- The words that introduce a named group of fields. -/
def groupWords : Dialect → List String
  | .hlsl => ["struct", "cbuffer", "tbuffer"]
  | .glsl => ["struct", "uniform", "buffer"]

/-- The extensions of the dialect's files. -/
def extensions : Dialect → List String
  | .hlsl => [".hlsl", ".hlsli", ".fx", ".fxh", ".cginc"]
  | .glsl => [".glsl", ".vert", ".frag", ".geom", ".comp", ".tesc", ".tese", ".vs", ".fs"]

/-- The category of a built-in type, none for any other word. -/
def typeCategory? (d : Dialect) (word : Text) : Option TypeCategory :=
  d.types.lookup (String.ofList word)

/-- Whether a word qualifies declarations. -/
def isQualifier (d : Dialect) (word : Text) : Bool :=
  d.qualifiers.contains (String.ofList word)

/-- Whether a word introduces a named group of fields. -/
def isGroupWord (d : Dialect) (word : Text) : Bool :=
  d.groupWords.contains (String.ofList word)

/-- The class of a word: a type name before a keyword before an identifier. -/
def classify (d : Dialect) (word : Text) : WordClass :=
  match d.typeCategory? word with
  | some category => .typeName category
  | none => if d.keywords.contains (String.ofList word) then .keyword else .identifier

/-- The dialect of files with an extension, whatever the case of its letters. -/
def ofExtension? (suffix : Text) : Option Dialect :=
  let lowered := String.ofList (Text.lowercase suffix)
  all.find? fun d => d.extensions.contains lowered

/-- The dialect of a name, whatever the case of its letters. -/
def ofName? (requested : Text) : Option Dialect :=
  let lowered := String.ofList (Text.lowercase requested)
  all.find? fun d => d.name = lowered

end Dialect

end ShaderStyle
