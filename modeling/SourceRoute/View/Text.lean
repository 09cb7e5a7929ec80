import SourceRoute.Text.Numeral
import SourceRoute.View.Basic

/-!
# Text of paths in place

The text of a record names its type and its parts, in the order in which they lie in the bytes.
Flags are written as the names of the set bits, lowest first, and one hexadecimal number for the
bits that have no name.
-/

namespace SourceRoute

/-- A type name with named parts. -/
def recordText (name : String) (parts : List (String × String)) : String :=
  name ++ " \x7b " ++ ", ".intercalate (parts.map fun (part, value) => part ++ ": " ++ value)
    ++ " \x7d"

/-- The names of the set bits, then what is left as a number.  No bit at all is the number zero. -/
def flagText (name : String) (named : List (UInt8 × String)) (bits : UInt8) : String :=
  let names := (named.filter fun (bit, _) => bits &&& bit ≠ 0).map Prod.snd
  let left := named.foldl (fun rest (bit, _) => rest &&& ~~~bit) bits
  let number :=
    if left ≠ 0 ∨ bits = 0 then ["0x" ++ String.ofList (Text.Numeral.hex left.toNat)] else []
  name ++ "(" ++ " | ".intercalate (names ++ number) ++ ")"

/-- The text of the flags of an info field. -/
def InfoFlags.text (f : InfoFlags) : String :=
  flagText "InfoFieldFlags"
    [(InfoFlags.consDirBit, "CONS_DIR"), (InfoFlags.peeringBit, "PEERING")] f.bits

/-- The text of the flags of a hop field. -/
def HopFlags.text (f : HopFlags) : String :=
  flagText "HopFieldFlags"
    [(HopFlags.ingressAlertBit, "CONS_INGRESS_ROUTER_ALERT"),
     (HopFlags.egressAlertBit, "CONS_EGRESS_ROUTER_ALERT")] f.bits

/-- The text of an info field. -/
def InfoView.text (v : InfoView) : String :=
  recordText "InfoFieldView"
    [("flags", v.field.flags.text), ("segment_id", toString v.field.segmentId),
     ("timestamp", toString v.field.timestamp)]

/-- The text of a hop field. -/
def HopView.text (v : HopView) : String :=
  recordText "HopFieldView"
    [("flags", v.field.flags.text), ("exp_time", toString v.field.expTime),
     ("cons_ingress", toString v.field.ingress), ("cons_egress", toString v.field.egress),
     ("mac", v.field.mac.text)]

/-- The text of a list of texts. -/
def listText (items : List String) : String := "[" ++ ", ".intercalate items ++ "]"

/-- The text of a path. -/
def PathView.text (v : PathView) : String :=
  recordText "StandardPathView"
    [("current_info_field", toString v.header.currentInfo),
     ("curr_hop_field", toString v.header.currentHop),
     ("seg0_len", toString v.lengths.first), ("seg1_len", toString v.lengths.second),
     ("seg2_len", toString v.lengths.third),
     ("info_fields", listText (v.infos.map InfoView.text)),
     ("hop_fields", listText (v.hops.map HopView.text))]

end SourceRoute
