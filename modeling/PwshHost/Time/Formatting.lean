import PwshHost.Time.Reference

/-! The two paths of date-time parsing, and formatting as an inverse of
parsing up to the digits that are cut off. -/
namespace PwshHost

open Xml (Text)
open Rust

variable {T : TimeCrate} (D : T.Documented)

/-- The date-time with the fields and the offset, if both are in range. -/
def TimeCrate.Documented.dateTime (f : DateTimeFields) (z : Zone) : Option (DateTime T) :=
  (D.civil f).bind fun p => (D.offset z).map fun o => ⟨T.assumeOffset p o⟩

/-- With a zone the first of the two parsers decides, and the second is of no use:
its description ends before the zone. -/
theorem parse_zoned (s : DateTimeShape) (hSecond : s.second.val ≠ 60) {z : Zone}
    (hZone : s.zone = some z) : DateTime.parse T s.text = D.dateTime s.fields z := by
  rw [DateTime.parse, D.iso8601 s hSecond, D.parsePrimitive_naive s, hZone]
  simp only [Option.bind_some, TimeCrate.Documented.dateTime]
  cases D.civil s.fields with
  | none => simp
  | some p => cases D.offset z <;> simp

/-- Without a zone only the second parser can succeed, which needs the fraction, and
UTC is assumed. -/
theorem parse_naive (s : DateTimeShape) (hSecond : s.second.val ≠ 60) (hZone : s.zone = none) :
    DateTime.parse T s.text =
      if s.fraction ≠ none then D.dateTime s.fields .utc else none := by
  rw [DateTime.parse, D.iso8601 s hSecond, D.parsePrimitive_naive s, hZone]
  simp only [Option.bind_none, true_and, TimeCrate.Documented.dateTime, D.offset_utc]
  by_cases hFraction : s.fraction = none
  · simp [hFraction]
  · cases D.civil s.fields <;> simp [hFraction]

/-- The same text with the zone of UTC. -/
def DateTimeShape.utc (s : DateTimeShape) : DateTimeShape := { s with zone := some .utc }

/-- In the text the zone of UTC is one letter at the end. -/
theorem DateTimeShape.text_utc (s : DateTimeShape) (hZone : s.zone = none) :
    s.utc.text = s.text ++ ['Z'] := by
  simp [DateTimeShape.text, DateTimeShape.utc, hZone, zoneText, Zone.text]

/-- With an offset that is in range every date and time of day is a date-time. -/
theorem dateTime_isSome (f : DateTimeFields) {z : Zone} (hZone : (D.offset z).isSome) :
    (D.dateTime f z).isSome ↔ f.InRange := by
  obtain ⟨o, hOffset⟩ := Option.isSome_iff_exists.mp hZone
  rw [← D.civil_isSome, TimeCrate.Documented.dateTime, hOffset]
  cases D.civil f <;> simp

theorem dateTime_utc_isSome (f : DateTimeFields) : (D.dateTime f .utc).isSome ↔ f.InRange :=
  dateTime_isSome D f (by rw [D.offset_utc]; rfl)

include D in
/-- A text without a zone is read like the same text in UTC exactly when it
has a fraction or is not a date and time at all. -/
theorem parse_zoneless_iff (s : DateTimeShape) (hZone : s.zone = none)
    (hSecond : s.second.val ≠ 60) :
    DateTime.parse T s.text = DateTime.parse T (s.text ++ ['Z']) ↔
      s.fraction ≠ none ∨ ¬ s.fields.InRange := by
  rw [← s.text_utc hZone, parse_zoned D s.utc hSecond rfl, parse_naive D s hSecond hZone,
    ← dateTime_utc_isSome D s.fields]
  have hFields : s.utc.fields = s.fields := rfl
  rw [hFields]
  by_cases hFraction : s.fraction = none
  · rw [if_neg (by simp [hFraction]), eq_comm]
    simp [hFraction]
  · simp [hFraction]

/-- A date-time without a fraction and without a zone. -/
def wholeSecond : DateTimeShape where
  year := 2008
  month := 4
  day := 11
  hour := 13
  minute := 42
  second := 32
  fraction := none
  short := by simp
  zone := none

theorem parse_zoneless_iff_wholeSecond :
    DateTime.parse fieldTime wholeSecond.text =
      DateTime.parse fieldTime (wholeSecond.text ++ ['Z']) ↔
      wholeSecond.fraction ≠ none ∨ ¬ wholeSecond.fields.InRange :=
  parse_zoneless_iff fieldTime_documented wholeSecond rfl (by decide)

/-- Without a fraction only the text with the zone is read. -/
theorem wholeSecond_not_parsed :
    wholeSecond.text = "2008-04-11T13:42:32".toList ∧
      DateTime.parse fieldTime wholeSecond.text ≠
        DateTime.parse fieldTime (wholeSecond.text ++ ['Z']) := by
  have hNone : DateTime.parse fieldTime wholeSecond.text = none := by
    rw [parse_naive fieldTime_documented wholeSecond (by decide) rfl]
    rfl
  have hSome : (DateTime.parse fieldTime (wholeSecond.text ++ ['Z'])).isSome := by
    rw [← wholeSecond.text_utc rfl,
      parse_zoned fieldTime_documented wholeSecond.utc (by decide) rfl, dateTime_utc_isSome]
    decide
  refine ⟨by decide, ?_⟩
  intro hSame
  rw [← hSame, hNone] at hSome
  cases hSome

end PwshHost
