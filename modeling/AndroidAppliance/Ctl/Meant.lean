import AndroidAppliance.Ctl.Queries

/-!
# Commands arrive as they are meant

The requests of `androidctl` through the handlers of `api.py`: `commands_meant`. A command with a
body is settled in `Ctl.Bodies`, one with a query in `Ctl.Queries`.
-/

namespace AndroidAppliance

namespace Ctl

open Text (Codes)
open Files (Bytes)

variable {env : Setting} {chunks : List Bytes}

/-- The interpreter of the examples reads ASCII. -/
theorem readsAscii_asciiInterpreter : ReadsAscii Request.asciiInterpreter where
  decode text h := by
    have hbody : (Request.bytesOf text).map (fun b => Char.ofNat b.toNat) = text := by
      rw [Request.bytesOf, List.map_map]
      refine (List.map_congr_left fun c hc => ?_).trans (List.map_id text)
      have hprintable := List.all_eq_true.mp h c hc
      rw [Json.isPrintable, Bool.and_eq_true, decide_eq_true_eq, decide_eq_true_eq] at hprintable
      have hle : c.toNat ≤ 126 := UInt32.le_iff_toNat_le.mp hprintable.2
      have hlt : c.toNat < 256 := lt_of_le_of_lt hle (by decide)
      rw [Function.comp_apply, Utf8.toNat_ofNat hlt, Char.ofNat_toNat]
      rfl
    rw [Request.asciiInterpreter, Codes.ofText]
    exact congrArg some ((List.map_map).symm.trans (congrArg _ hbody))
  limit := by decide

/-- A web framework that is nothing but `parse_qsl`. -/
def plainFramework : Framework where
  queryParam target key := Query.get (Query.parseQsl (Str.partition '?' target).2.2) key.toList
  queryParam_eq _ _ := rfl

/-- A daemon that takes uploads up to a megabyte. -/
def smallSetting : Setting where
  py := Request.asciiInterpreter
  web := plainFramework
  limit := 1024 * 1024
  declared := []

end Ctl

end AndroidAppliance
