import Signoz.Querier.Functions

/-!
# Units

`ConverterFromUnit` and the converters of package `units`: a duration, an amount of data, a data
rate or a percentage is converted by the ratio of two factors; booleans, throughputs and units
that no converter knows are left as they are.
-/

namespace Signoz.Rules

open Signoz.Querier

/-- `Unit`. -/
abbrev MeasureUnit := String

/-- The converters. -/
inductive Converter where
  | duration
  | data
  | dataRate
  | percent
  | bool
  | throughput
  | noneConverter

/-- `ConverterFromUnit`. -/
def converterFromUnit (u : MeasureUnit) : Converter :=
  if u ∈ ["ns", "us", "µs", "ms", "s", "m", "h", "d", "min", "w", "wk"] then .duration
  else if u ∈ ["bytes", "decbytes", "bits", "bit", "decbits", "kbytes", "decKbytes", "deckbytes",
      "mbytes", "decMbytes", "decmbytes", "gbytes", "decGbytes", "decgbytes", "tbytes",
      "decTbytes", "dectbytes", "pbytes", "decPbytes", "decpbytes", "By", "kBy", "MBy", "GBy",
      "TBy", "PBy", "EBy", "ZBy", "YBy", "KiBy", "MiBy", "GiBy", "TiBy", "PiBy", "EiBy", "ZiBy",
      "YiBy", "kbit", "Mbit", "Gbit", "Tbit", "Pbit", "Ebit", "Zbit", "Ybit", "Kibit", "Mibit",
      "Gibit", "Tibit", "Pibit"] then .data
  else if u ∈ ["binBps", "Bps", "binbps", "bps", "KiBs", "Kibits", "KBs", "Kbits", "MiBs",
      "Mibits", "MBs", "Mbits", "GiBs", "Gibits", "GBs", "Gbits", "TiBs", "Tibits", "TBs",
      "Tbits", "PiBs", "Pibits", "PBs", "Pbits", "By/s", "kBy/s", "MBy/s", "GBy/s", "TBy/s",
      "PBy/s", "EBy/s", "ZBy/s", "YBy/s", "bit/s", "kbit/s", "Mbit/s", "Gbit/s", "Tbit/s",
      "Pbit/s", "Ebit/s", "Zbit/s", "Ybit/s", "KiBy/s", "MiBy/s", "GiBy/s", "TiBy/s", "PiBy/s",
      "EiBy/s", "ZiBy/s", "YiBy/s", "Kibit/s", "Mibit/s", "Gibit/s", "Tibit/s", "Pibit/s",
      "Eibit/s", "Zibit/s", "Yibit/s"] then .dataRate
  else if u ∈ ["percent", "percentunit", "%"] then .percent
  else if u ∈ ["bool", "bool_yes_no", "bool_true_false", "bool_1_0"] then .bool
  else if u ∈ ["cps", "ops", "reqps", "rps", "wps", "iops", "cpm", "opm", "rpm", "wpm",
      "\x7bcount\x7d/s", "\x7bops\x7d/s", "\x7breq\x7d/s", "\x7bread\x7d/s", "\x7bwrite\x7d/s",
      "\x7biops\x7d/s", "\x7bcount\x7d/min", "\x7bops\x7d/min", "\x7bread\x7d/min",
      "\x7bwrite\x7d/min"] then .throughput
  else .noneConverter

/-- A positive factor `num / den`, the value a unit's constant stands for. -/
structure Factor where
  num : Nat
  den : Nat
  num_pos : 0 < num
  den_pos : 0 < den

/-- A whole factor. -/
def Factor.whole (n : Nat) (h : 0 < n := by decide) : Factor := ⟨n, 1, h, Nat.one_pos⟩

/-- A fraction of a second. -/
def Factor.part (n : Nat) (h : 0 < n := by decide) : Factor := ⟨1, n, Nat.one_pos, h⟩

/-- `FromTimeUnit`, in seconds. -/
def fromTimeUnit (u : MeasureUnit) : Factor :=
  match u with
  | "ns" => .part (10 ^ 9)
  | "us" | "µs" => .part (10 ^ 6)
  | "ms" => .part (10 ^ 3)
  | "cs" => .part (10 ^ 2)
  | "ds" => .part 10
  | "s" => .whole 1
  | "m" | "min" => .whole 60
  | "h" => .whole (60 * 60)
  | "d" => .whole (60 * 60 * 24)
  | "w" | "wk" => .whole (60 * 60 * 24 * 7)
  | _ => .whole 1

/-- `FromDataUnit`, in bits. -/
def fromDataUnit (u : MeasureUnit) : Factor :=
  match u with
  | "bytes" | "By" => .whole 8
  | "decbytes" => .whole 8
  | "bits" | "bit" => .whole 1
  | "decbits" => .whole 1
  | "kbytes" | "KiBy" => .whole (8 * 1024)
  | "decKbytes" | "deckbytes" | "kBy" => .whole (8 * 10 ^ 3)
  | "mbytes" | "MiBy" => .whole (8 * 1024 ^ 2)
  | "decMbytes" | "decmbytes" | "MBy" => .whole (8 * 10 ^ 6)
  | "gbytes" | "GiBy" => .whole (8 * 1024 ^ 3)
  | "decGbytes" | "decgbytes" | "GBy" => .whole (8 * 10 ^ 9)
  | "tbytes" | "TiBy" => .whole (8 * 1024 ^ 4)
  | "decTbytes" | "dectbytes" | "TBy" => .whole (8 * 10 ^ 12)
  | "pbytes" | "PiBy" => .whole (8 * 1024 ^ 5)
  | "decPbytes" | "decpbytes" | "PBy" => .whole (8 * 10 ^ 15)
  | "EBy" => .whole (8 * 10 ^ 18)
  | "ZBy" => .whole (8 * 10 ^ 21)
  | "YBy" => .whole (8 * 10 ^ 24)
  | "Kibit" => .whole 1024
  | "Mibit" => .whole (1024 ^ 2)
  | "Gibit" => .whole (1024 ^ 3)
  | "Tibit" => .whole (1024 ^ 4)
  | "Pibit" => .whole (1024 ^ 5)
  | "EiBy" => .whole (8 * 1024 ^ 6)
  | "ZiBy" => .whole (8 * 1024 ^ 7)
  | "YiBy" => .whole (8 * 1024 ^ 8)
  | "kbit" => .whole (10 ^ 3)
  | "Mbit" => .whole (10 ^ 6)
  | "Gbit" => .whole (10 ^ 9)
  | "Tbit" => .whole (10 ^ 12)
  | "Pbit" => .whole (10 ^ 15)
  | "Ebit" => .whole (10 ^ 18)
  | "Zbit" => .whole (10 ^ 21)
  | "Ybit" => .whole (10 ^ 24)
  | _ => .whole 1

/-- `FromDataRateUnit`, in bits per second. -/
def fromDataRateUnit (u : MeasureUnit) : Factor :=
  match u with
  | "binBps" => .whole 8
  | "Bps" | "By/s" => .whole 8
  | "binbps" => .whole 1
  | "bps" | "bit/s" => .whole 1
  | "KiBs" | "KiBy/s" => .whole (8 * 1024)
  | "Kibits" | "Kibit/s" => .whole 1024
  | "KBs" | "kBy/s" => .whole (8 * 10 ^ 3)
  | "Kbits" | "kbit/s" => .whole (10 ^ 3)
  | "MiBs" | "MiBy/s" => .whole (8 * 1024 ^ 2)
  | "Mibits" | "Mibit/s" => .whole (1024 ^ 2)
  | "MBs" | "MBy/s" => .whole (8 * 10 ^ 6)
  | "Mbits" | "Mbit/s" => .whole (10 ^ 6)
  | "GiBs" | "GiBy/s" => .whole (8 * 1024 ^ 3)
  | "Gibits" | "Gibit/s" => .whole (1024 ^ 3)
  | "GBs" | "GBy/s" => .whole (8 * 10 ^ 9)
  | "Gbits" | "Gbit/s" => .whole (10 ^ 9)
  | "TiBs" | "TiBy/s" => .whole (8 * 1024 ^ 4)
  | "Tibits" | "Tibit/s" => .whole (1024 ^ 4)
  | "TBs" | "TBy/s" => .whole (8 * 10 ^ 12)
  | "Tbits" | "Tbit/s" => .whole (10 ^ 12)
  | "PiBs" | "PiBy/s" => .whole (8 * 1024 ^ 5)
  | "Pibits" | "Pibit/s" => .whole (1024 ^ 5)
  | "PBs" | "PBy/s" => .whole (8 * 10 ^ 15)
  | "Pbits" | "Pbit/s" => .whole (10 ^ 15)
  | "EBy/s" => .whole (8 * 10 ^ 18)
  | "Ebit/s" => .whole (10 ^ 18)
  | "EiBy/s" => .whole (8 * 1024 ^ 6)
  | "Eibit/s" => .whole (1024 ^ 6)
  | "ZBy/s" => .whole (8 * 10 ^ 21)
  | "Zbit/s" => .whole (10 ^ 21)
  | "ZiBy/s" => .whole (8 * 1024 ^ 7)
  | "Zibit/s" => .whole (1024 ^ 7)
  | "YBy/s" => .whole (8 * 10 ^ 24)
  | "Ybit/s" => .whole (10 ^ 24)
  | "YiBy/s" => .whole (8 * 1024 ^ 8)
  | "Yibit/s" => .whole (1024 ^ 8)
  | _ => .whole 1

/-- `FromPercentUnit`. -/
def fromPercentUnit (u : MeasureUnit) : Factor :=
  match u with
  | "percent" | "%" => .whole 1
  | "percentunit" => .whole 100
  | _ => .whole 1

/-- The factor table of a converter, for the converters that have one. -/
def Converter.factor? (converter : Converter) : Option (MeasureUnit → Factor) :=
  match converter with
  | .duration => some fromTimeUnit
  | .data => some fromDataUnit
  | .dataRate => some fromDataRateUnit
  | .percent => some fromPercentUnit
  | .bool | .throughput | .noneConverter => none

section Convert

variable {V : Type} [Float64 V]

open Float64

/-- The constant of a unit as a value. -/
def Factor.value (factor : Factor) : V :=
  if factor.den = 1 then ofInt factor.num else div (ofInt factor.num) (ofInt factor.den)

/-- `Convert`: the value in `source` is given in `target`. -/
def Converter.convert (converter : Converter) (v : V) (source target : MeasureUnit) : V :=
  match converter.factor? with
  | some factor => div (mul v (factor source).value) (factor target).value
  | none => v

end Convert

end Signoz.Rules
