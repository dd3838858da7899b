import IconConstraints.Decimal.NumberStyle
import IconConstraints.RuleTable
import IconConstraints.Text.Hexadecimal

/-!
# Rule tables as Zig source

A table is written as a Zig function that switches over the codepoint.  Each rule
is an arm: its ranges one a line, then the fields of the constraint that are set,
in a fixed order.  Relative geometry has sixteen decimal places, paddings and the
ratio have the fewest digits that read back.
-/

namespace IconConstraints.RuleTable

/-- The fields of a constraint that are set, with the texts of their values. -/
def zigFields (c : Constraint) : List (String × String) :=
  let named (text : String) : String := "." ++ text
  let fields : List (String × Option String) := [
    ("size", c.sizing.map fun s => named s.text),
    ("height", c.height.map fun h => named h.text),
    ("max_constraint_width", c.maxWidth.map fun w => toString w.toNat),
    ("align_horizontal", c.alignHorizontal.map fun a => named a.text),
    ("align_vertical", c.alignVertical.map fun a => named a.text),
    ("relative_width", c.relativeWidth.map fun x => Decimal.fixed 16 x.toFloat),
    ("relative_height", c.relativeHeight.map fun x => Decimal.fixed 16 x.toFloat),
    ("relative_x", c.relativeX.map fun x => Decimal.fixed 16 x.toFloat),
    ("relative_y", c.relativeY.map fun x => Decimal.fixed 16 x.toFloat),
    ("pad_left", c.padLeft.map fun x => Decimal.full x.toFloat),
    ("pad_right", c.padRight.map fun x => Decimal.full x.toFloat),
    ("pad_top", c.padTop.map fun x => Decimal.full x.toFloat),
    ("pad_bottom", c.padBottom.map fun x => Decimal.full x.toFloat),
    ("max_xy_ratio", c.maxRatio.map fun x => Decimal.full x.toFloat)]
  fields.filterMap fun (name, value) => value.map fun text => (name, text)

def zigRange (r : CodepointRange) : String :=
  if r.isSingle then "        " ++ Text.hex r.first ++ ",\n"
  else "        " ++ Text.hex r.first ++ "..." ++ Text.hex r.last ++ ",\n"

def zigField (field : String × String) : String :=
  "            ." ++ field.1 ++ " = " ++ field.2 ++ ",\n"

def zigArm (r : Rule) : String :=
  String.join (r.ranges.map zigRange) ++ "        => .\x7b\n" ++
    String.join ((zigFields r.constraint).map zigField) ++ "        \x7d,\n"

def zigHeader (generator : String) : String :=
  "//! This is a generated file, produced by " ++ generator ++ "\n" ++
  "//! DO NOT EDIT BY HAND!\n" ++
  "//!\n" ++
  "//! This file provides info extracted from the nerd fonts patcher script,\n" ++
  "//! specifying the scaling/positioning attributes of various glyphs.\n" ++
  "\n" ++
  "const Constraint = @import(\"face.zig\").RenderOptions.Constraint;\n" ++
  "\n" ++
  "/// Get the constraints for the provided codepoint.\n" ++
  "pub fn getConstraint(cp: u21) ?Constraint \x7b\n    return switch (cp) \x7b\n"

def zigFooter : String :=
  "        else => null,\n    \x7d;\n\x7d\n"

/-- The source text, which names the generator in its first line. -/
def zig (t : RuleTable) (generator : String) : String :=
  zigHeader generator ++ String.join (t.rules.map zigArm) ++ zigFooter

end IconConstraints.RuleTable
