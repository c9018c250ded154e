import OsCompas.Python.Dict
import OsCompas.Python.Regex
import OsCompas.Tracer.Pattern
import OsCompas.Tracer.Parse
import OsCompas.Tracer.Aggregate
import OsCompas.Tracer.Report
import OsCompas.Tracer.Main
import OsCompas.Sensor.Visualizer
import OsCompas.Sensor.Mqtt
import OsCompas.Process.Tree
import OsCompas.Process.Snapshot
import OsCompas.Process.Monitor
import OsCompas.Process.Analyzer
