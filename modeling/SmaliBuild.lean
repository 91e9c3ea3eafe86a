import SmaliBuild.Main
import SmaliBuild.Proofs.Config.Commands
import SmaliBuild.Proofs.Config.Schema
import SmaliBuild.Proofs.Conversion.CommandLines
import SmaliBuild.Proofs.Conversion.Course
import SmaliBuild.Proofs.Conversion.Frame
import SmaliBuild.Proofs.Conversion.Order
import SmaliBuild.Proofs.Conversion.Residue
import SmaliBuild.Proofs.Conversion.Seam
import SmaliBuild.Proofs.Conversion.Sources
import SmaliBuild.Proofs.Conversion.Spared
import SmaliBuild.Proofs.Conversion.Verdict
import SmaliBuild.Proofs.Files.Below
import SmaliBuild.Proofs.Files.Crossings
import SmaliBuild.Proofs.Files.Lookup
import SmaliBuild.Proofs.Files.Prune
import SmaliBuild.Proofs.Files.Sites
import SmaliBuild.Proofs.Files.Table
import SmaliBuild.Proofs.Host.Logging
import SmaliBuild.Proofs.Host.Pairs
import SmaliBuild.Proofs.Host.Steps
import SmaliBuild.Proofs.Input.Apart
import SmaliBuild.Proofs.Input.Places
import SmaliBuild.Proofs.Input.Products
import SmaliBuild.Proofs.Input.Respelled
import SmaliBuild.Proofs.Input.Sibling
import SmaliBuild.Proofs.Manifest.Account
import SmaliBuild.Proofs.Manifest.Frame
import SmaliBuild.Proofs.Manifest.ReadBack
import SmaliBuild.Proofs.Manifest.Recursion
import SmaliBuild.Proofs.Manifest.Remains
import SmaliBuild.Proofs.Manifest.Renewal
import SmaliBuild.Proofs.Manifest.Walk
import SmaliBuild.Proofs.Path.Canonical
import SmaliBuild.Proofs.Path.Derived
import SmaliBuild.Proofs.Path.Parts
import SmaliBuild.Proofs.Path.Segments
import SmaliBuild.Proofs.Program.Status
import SmaliBuild.Proofs.Program.Verbosity
import SmaliBuild.Proofs.Program.Warnings
import SmaliBuild.Proofs.Program.Work
import SmaliBuild.Proofs.Sweep.Account
import SmaliBuild.Proofs.Sweep.Frame
import SmaliBuild.Proofs.Sweep.Preview
import SmaliBuild.Proofs.Sweep.Removal
import SmaliBuild.Proofs.Text.Lossy
import SmaliBuild.Proofs.Text.Utf8
import SmaliBuild.Proofs.Toml.Keys
