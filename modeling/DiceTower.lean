import DiceTower.Main
import DiceTower.Notation.Report
import DiceTower.Proofs.Dice.Choice
import DiceTower.Proofs.Dice.Doubling
import DiceTower.Proofs.Dice.Expectation
import DiceTower.Proofs.Dice.Growth
import DiceTower.Proofs.Dice.Reach
import DiceTower.Proofs.Dice.Trail
import DiceTower.Proofs.Engine.Announced
import DiceTower.Proofs.Engine.Aptitude
import DiceTower.Proofs.Engine.CriticalCarry
import DiceTower.Proofs.Engine.CriticalPreview
import DiceTower.Proofs.Engine.Inertness
import DiceTower.Proofs.Engine.Itemised
import DiceTower.Proofs.Engine.OnceOnly
import DiceTower.Proofs.Engine.PolicyAgreement
import DiceTower.Proofs.Engine.Preview
import DiceTower.Proofs.Engine.Recorded
import DiceTower.Proofs.Engine.Replaced
import DiceTower.Proofs.Engine.Unfailing
import DiceTower.Proofs.Modifier.Arrangement
import DiceTower.Proofs.Odds.Averages
import DiceTower.Proofs.Odds.Exploding
import DiceTower.Proofs.Odds.OneDie
import DiceTower.Proofs.Rulebook.Inspiration
import DiceTower.Proofs.Session.Agreement
import DiceTower.Proofs.Session.Cancellation
import DiceTower.Proofs.Session.Chronicle
import DiceTower.Proofs.Session.Exchange
