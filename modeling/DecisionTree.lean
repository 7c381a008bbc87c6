import DecisionTree.Classifier.Basic
import DecisionTree.Proofs.Buffer.Pool
import DecisionTree.Proofs.Buffer.Shelf
import DecisionTree.Proofs.Column.Acceptance
import DecisionTree.Proofs.Column.Journal
import DecisionTree.Proofs.Column.Rebuilding
import DecisionTree.Proofs.Dataset.Builders
import DecisionTree.Proofs.Dataset.RoundTrip
import DecisionTree.Proofs.Dataset.Spreading
import DecisionTree.Proofs.Growth.Accuracy
import DecisionTree.Proofs.Growth.Addresses
import DecisionTree.Proofs.Growth.Attaching
import DecisionTree.Proofs.Growth.Columns
import DecisionTree.Proofs.Growth.Depth
import DecisionTree.Proofs.Growth.Drawn
import DecisionTree.Proofs.Growth.Merging
import DecisionTree.Proofs.Growth.Pruning
import DecisionTree.Proofs.Growth.Regrouping
import DecisionTree.Proofs.Growth.Rescaling
import DecisionTree.Proofs.Growth.Rounded
import DecisionTree.Proofs.Growth.Shares
import DecisionTree.Proofs.Growth.Sharing
import DecisionTree.Proofs.Prediction
import DecisionTree.Proofs.Report.Drawing
import DecisionTree.Proofs.Report.Rules
