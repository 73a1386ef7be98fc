import HolidayRules.Cache
import HolidayRules.Selection
import HolidayRules.Proofs.Calendar.HebrewDays
import HolidayRules.Proofs.Calendar.HebrewInYear
import HolidayRules.Proofs.Calendar.HijriInYear
import HolidayRules.Proofs.Chain.FaultPositions
import HolidayRules.Proofs.Date.WorkingDays
import HolidayRules.Proofs.Evaluation.CachedCodes
import HolidayRules.Proofs.Evaluation.DateCodes
import HolidayRules.Proofs.Evaluation.LeftOver
import HolidayRules.Proofs.Evaluation.ObservedDays
import HolidayRules.Proofs.Evaluation.OwnDate
import HolidayRules.Proofs.Evaluation.RegisteredNames
import HolidayRules.Proofs.Feast.GregorianEaster
import HolidayRules.Proofs.Phrase.ItemOrder
import HolidayRules.Proofs.Phrase.MonthPicks
import HolidayRules.Proofs.Phrase.NamedMonth
import HolidayRules.Proofs.Phrase.RoundTrip
import HolidayRules.Proofs.Rule.YearSets
import HolidayRules.Proofs.Selection.Changes
import HolidayRules.Proofs.Selection.RuleOfDay
import HolidayRules.Proofs.Selection.YearSpans
import HolidayRules.Proofs.Template.Canonical
import HolidayRules.Proofs.Template.Tiling
import HolidayRules.Proofs.Template.YearList
