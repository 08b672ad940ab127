import DeskCalc.Main
import DeskCalc.Proofs.AlignedStacks
import DeskCalc.Proofs.AngleConversion
import DeskCalc.Proofs.AnswerReplacement
import DeskCalc.Proofs.ClipboardLabel
import DeskCalc.Proofs.CommandAnswer
import DeskCalc.Proofs.Conservation
import DeskCalc.Proofs.ContinuedResult
import DeskCalc.Proofs.Deliveries
import DeskCalc.Proofs.ErrorTaxonomy
import DeskCalc.Proofs.FirstOffence
import DeskCalc.Proofs.HalfAway
import DeskCalc.Proofs.IdleDisplay
import DeskCalc.Proofs.IeeeOperators
import DeskCalc.Proofs.ImmediateOutcomes
import DeskCalc.Proofs.KeptAnswer
import DeskCalc.Proofs.RadixExpansion
import DeskCalc.Proofs.RepeatedResult
import DeskCalc.Proofs.SettingsComposition
import DeskCalc.Proofs.SettingsDialog
import DeskCalc.Proofs.SettingsLoading
import DeskCalc.Proofs.ShortestCompletion
import DeskCalc.Proofs.SignificantFigures
import DeskCalc.Proofs.Term
import DeskCalc.Proofs.UndoRedo
